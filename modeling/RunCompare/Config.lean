/-
What an analysis is configured with.
-/
import RunCompare.Comparison.Pair
import RunCompare.Text.Blank

namespace RunCompare

/-- The configuration of an analysis. -/
structure Config where
  /-- The title of the report. -/
  name : String
  /-- The path of the runs to read, if the configuration names one. -/
  input : Option String
  /-- Whether the first line of the runs is a header. -/
  skipHeader : Bool
  /-- The pairs to compare, in the order of the report. -/
  pairs : List ConfigPair
deriving DecidableEq, Repr

/-- Why a configuration is refused; pairs are counted from one. -/
inductive ConfigError where
  /-- The text is not TOML, or lacks a field, or has one of another type. -/
  | malformed
  /-- A side of a pair has a blank name. -/
  | emptyName (pair : Nat)
  /-- Both sides of a pair have one name. -/
  | selfComparison (pair : Nat) (name : String)
deriving DecidableEq, Repr

/-- The message of an error. -/
def ConfigError.message : ConfigError → String
  | malformed => "Failed to parse TOML configuration"
  | emptyName pair => "Comparison #" ++ toString pair ++ " has an empty configuration name"
  | selfComparison pair name =>
    "Comparison #" ++ toString pair ++ " compares '" ++ name ++ "' with itself"

namespace Config

/-- Accepts pairs of two different names that are not blank; the first one in the list counts
as number `start`. -/
def checkPairs : (start : Nat) → List ConfigPair → Except ConfigError Unit
  | _, [] => .ok ()
  | start, p :: rest =>
    if Text.isAllBlank p.first || Text.isAllBlank p.second then .error (.emptyName start)
    else if p.first = p.second then .error (.selfComparison start p.first)
    else checkPairs (start + 1) rest

/-- Accepts a configuration whose pairs are valid. -/
def validate (c : Config) : Except ConfigError Unit := checkPairs 1 c.pairs

end Config

end RunCompare
