/-
Why an analysis or the definition of a metric is refused.
-/
import RunCompare.FieldPath
import RunCompare.Run.Phase

namespace RunCompare

/-- Why an analysis or the definition of a metric is refused. -/
inductive AnalysisError where
  /-- A run that takes part in an aggregation lacks a part of its report. -/
  | malformedGroup (testCase : UInt64) (config file : String) (missing : ReportPart)
  /-- No numeric field has this path. -/
  | unknownField (path : FieldPath)
  /-- A path has an empty segment. -/
  | emptyPath
deriving Repr

/-- The message of an error. -/
def AnalysisError.message : AnalysisError → String
  | malformedGroup testCase config file missing =>
    "Corrupted dataset: record '" ++ file ++ "' (test case " ++ toString testCase ++ ", config '"
      ++ config ++ "') has no " ++ missing.path
  | unknownField path => "Unknown metric field: " ++ path.text
  | emptyPath => "Empty metric field path"

end RunCompare
