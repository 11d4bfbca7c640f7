/-
One run of the program.

The run is written over any way to reach files, so that the program itself,
which reaches the real ones, and a model of a disk share it.  Files are read
before anything is written, and the report is the only thing written.
-/
import RunCompare.Analysis
import RunCompare.CommandLine.Options
import RunCompare.Config.Reader
import RunCompare.Ingest
import RunCompare.Path
import RunCompare.Report.Render

namespace RunCompare.CommandLine

/-- A way to reach files and the time. -/
structure Access (m : Type → Type) where
  /-- The content of a file, if it can be read. -/
  read : (path : String) → m (Option ByteArray)
  /-- Replaces the content of a file, and tells whether it could. -/
  write : (path content : String) → m Bool
  /-- The present time. -/
  now : m String

/-- Why a run fails. -/
inductive Failure where
  | unreadableConfig (path : String)
  | badConfig (error : ConfigError)
  /-- Neither the arguments nor the configuration name the runs. -/
  | noInput (config : String)
  | unreadableInput (path : String)
  | failedAnalysis (input : String) (error : AnalysisError)
  | unwritableReport (path : String)
deriving Repr

/-- The message of a failure. -/
def Failure.message : Failure → String
  | unreadableConfig path => "Failed to read config file: " ++ path
  | badConfig error => error.message
  | noInput config => "No benchmark data given: pass --input or set analysis.input in " ++ config
  | unreadableInput path => "Failed to read benchmark data: " ++ path
  | failedAnalysis input _ => "Failed to analyze " ++ input
  | unwritableReport path => "Failed to write report: " ++ path

variable {m : Type → Type} [Monad m]

/-- The text of a file that can be read and is valid UTF-8. -/
def readText (access : Access m) (path : String) : m (Option String) := do
  return (← access.read path).bind String.fromUTF8?

/-- The configuration in a file; a relative input path is resolved against the directory of the
file. -/
def loadConfig (access : Access m) (path : String) : ExceptT Failure m Config := do
  match ← (readText access path : m _) with
  | none => throw (.unreadableConfig path)
  | some text =>
    match Config.ofText text with
    | .error e => throw (.badConfig e)
    | .ok config =>
      return { config with input := config.input.map (Path.join (Path.directory path)) }

/-- The runs in a file. -/
def loadRuns (access : Access m) (skipHeader : Bool) (path : String) :
    ExceptT Failure m Ingested := do
  match ← (readText access path : m _) with
  | none => throw (.unreadableInput path)
  | some text => return Ingested.ofText skipHeader text.toList

/-- The path of the runs: the one in the arguments, else the one in the configuration. -/
def chooseInput (options : Options) (config : Config) : Except Failure String :=
  match options.input.or config.input with
  | some input => .ok input
  | none => .error (.noInput options.config)

/-- The report that a run is to give. -/
def makeReport (access : Access m) (options : Options) :
    ExceptT Failure m (Report Binary64) := do
  let config ← loadConfig access options.config
  let input ← chooseInput options config
  let ingested ← loadRuns access config.skipHeader input
  match analyze config (← access.now) ingested.runs with
  | .error e => throw (.failedAnalysis input e)
  | .ok report => return report

/-- Makes the report and puts it where it belongs; the text for standard output. -/
def produce (access : Access m) (options : Options) : ExceptT Failure m String := do
  let text := (← makeReport access options).render options.format
  match options.output with
  | none => return text
  | some path => if ← access.write path text then return "" else throw (.unwritableReport path)

/-- What a run leaves behind besides files. -/
structure Outcome where
  /-- Zero, or one for a failed run, or two for wrong arguments. -/
  exitCode : UInt8
  standardOutput : String
  /-- The message of a failed run. -/
  failure : Option String

/-- How the program is used. -/
def helpText : String := Text.unlines
  ["Aggregate and compare tree-diff benchmark runs", "",
    "Usage: bench-report [OPTIONS] <CONFIG>", "",
    "Arguments:",
    "  <CONFIG>  TOML analysis configuration", "",
    "Options:",
    "  -i, --input <INPUT>    Raw JSONL benchmark data (overrides \x60analysis.input\x60)",
    "  -f, --format <FORMAT>  Output format: json, json-pretty, console or markdown "
      ++ "[default: console]",
    "  -o, --output <OUTPUT>  Write the report to this file instead of stdout",
    "  -h, --help             Print help",
    "  -V, --version          Print version"]

/-- The version of the program. -/
def versionText : String := "bench-report 0.1.0\n"

/-- A run with the given arguments. -/
def run (access : Access m) (arguments : List String) : m Outcome := do
  match Invocation.ofArguments arguments with
  | .help => return ⟨0, helpText, none⟩
  | .version => return ⟨0, versionText, none⟩
  | .invalid => return ⟨2, "", none⟩
  | .run options =>
    match ← (produce access options).run with
    | .ok text => return ⟨0, text, none⟩
    | .error failure => return ⟨1, "", some failure.message⟩

end RunCompare.CommandLine
