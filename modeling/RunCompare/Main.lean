/-
The program: runs the command line on the files of the machine.
-/
import RunCompare.CommandLine.Run
import RunCompare.Timestamp
import Std.Time.DateTime.Timestamp

namespace RunCompare

/-- The present time. -/
def currentTime : IO String := do
  let now ← Std.Time.Timestamp.now
  return Timestamp.text now.toNanosecondsSinceUnixEpoch.val

/-- Reaching the files of the machine. -/
def machineAccess : CommandLine.Access IO where
  read path := do
    try return some (← IO.FS.readBinFile path)
    catch _ => return none
  write path content := do
    try IO.FS.writeFile path content; return true
    catch _ => return false
  now := currentTime

end RunCompare

def main (arguments : List String) : IO UInt32 := do
  let outcome ← RunCompare.CommandLine.run RunCompare.machineAccess arguments
  let stdout ← IO.getStdout
  stdout.putStr outcome.standardOutput
  stdout.flush
  match outcome.failure with
  | some message => IO.eprintln ("Error: " ++ message)
  | none => if outcome.exitCode = 2 then IO.eprintln "error: wrong arguments; see --help"
  return outcome.exitCode.toUInt32
