/-
The report as a JSON value.

The groups stand in the report once; the comparisons leave out their groups and
their speedup points.
-/
import RunCompare.Analysis

namespace RunCompare.Report

variable {α : Type} [Scalar α]

open RunCompare.Json

/-- The JSON value of a report, with the given value for each comparison. -/
def valueWith (comparison : Comparison α → Json α) (r : Report α) : Json α :=
  object
    [("name", .str r.name), ("generated_at", .str r.generatedAt),
      ("raw_records", .nat r.runCount), ("aggregated", .arr (r.groups.map RunGroup.toJson)),
      ("comparisons", .arr (r.comparisons.map comparison)), ("pivot", r.pivot.toJson)]

/-- The JSON value of a report with everything in it. -/
def fullValue (r : Report α) : Json α := valueWith Comparison.toJson r

/-- The keys of a comparison that a report leaves out. -/
def omittedKeys : List String := ["data", "speedup_data"]

/-- An object without the entries that have one of the given keys. -/
def withoutKeys (keys : List String) : Json α → Json α
  | .obj entries => .obj (entries.filter fun e => !keys.contains e.1)
  | v => v

/-- The JSON value of a report. -/
def toJson (r : Report α) : Json α := valueWith (fun c => withoutKeys omittedKeys c.toJson) r

end RunCompare.Report
