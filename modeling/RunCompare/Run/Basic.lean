/-
One measured run of one configuration on one file.
-/
import RunCompare.Run.Phase
import RunCompare.Error
import RunCompare.Json.Reader

namespace RunCompare

/-- One measured run of one configuration on one file. -/
structure Run (α : Type) where
  file : String
  config : String
  testCase : UInt64
  nodeCount : UInt64
  loc : UInt64
  durationSecs : α
  report : Option (PhaseReport α)
  others : KeyMap (Json α)

namespace Run

variable {α : Type} [Scalar α]

/-- Both phases of the run, or the first part of its report that is missing. -/
def breakdown (r : Run α) : Except ReportPart (Breakdown α) := do
  (← orMissing .report r.report).complete

/-- The first missing part of the run's report. -/
def missing? (r : Run α) : Option ReportPart :=
  match r.breakdown with
  | .ok _ => none
  | .error part => some part

/-- The error that a missing part of this run is. -/
def malformed (r : Run α) (part : ReportPart) : AnalysisError :=
  .malformedGroup r.testCase r.config r.file part

/-- Both phases of a run that has to be complete. -/
def requireBreakdown (r : Run α) : Except AnalysisError (Breakdown α) :=
  r.breakdown.mapError r.malformed

/-- Accepts a complete run. -/
def validate (r : Run α) : Except AnalysisError Unit :=
  match r.missing? with
  | some part => .error (r.malformed part)
  | none => .ok ()

/-- Wall-clock time in milliseconds. -/
def durationMs (r : Run α) : α := r.durationSecs * ((1000 : Nat) : α)

/-- The leaves phase, if reported. -/
def leaves? (r : Run α) : Option (LeavesReport α) := r.report.bind (·.leaves)

/-- The bottom-up phase, if reported. -/
def bottomUp? (r : Run α) : Option (BottomUpReport α) := r.report.bind (·.bottomUp)

/-! ### As JSON values -/

open Json

/-- The known keys of a run. -/
def keys : List String :=
  ["file_name", "config_name", "test_case_index", "node_count", "loc", "duration_secs",
    "diff_summary"]

/-- Reads a run. -/
def ofJson (v : Json α) : Option (Run α) := do
  let entries ← v.entries? keys
  return {
    file := ← requiredField text? "file_name" entries
    config := ← requiredField text? "config_name" entries
    testCase := ← requiredField count? "test_case_index" entries
    nodeCount := ← requiredField count? "node_count" entries
    loc := ← requiredField count? "loc" entries
    durationSecs := ← requiredField finite "duration_secs" entries
    report := ← optionalField PhaseReport.ofJson "diff_summary" entries
    others := otherFields keys entries }

/-- The JSON value of a run, a missing report being null. -/
def toJson (r : Run α) : Json α :=
  withOthers
    [("file_name", .str r.file), ("config_name", .str r.config),
      ("test_case_index", ofCount r.testCase), ("node_count", ofCount r.nodeCount),
      ("loc", ofCount r.loc), ("duration_secs", ofScalar r.durationSecs),
      ("diff_summary", ofOption PhaseReport.toJson r.report)]
    r.others

/-- Reads a run from its text. -/
def ofText? (text : List Char) : Option (Run Binary64) := (Json.read text).bind ofJson

end Run

end RunCompare
