/-
The numeric fields of runs and of groups of runs.
-/
import RunCompare.Metric.Basic
import RunCompare.Run.Basic
import RunCompare.Run.Group

namespace RunCompare

variable {α : Type} [Scalar α]

/-- The number that a count is. -/
def scalarOfCount (n : UInt64) : α := ((n.toNat : Nat) : α)

/-- The numeric fields that runs and groups of runs have in common. -/
def commonFields : List (List String) :=
  [["test_case_index"], ["node_count"], ["loc"], ["duration_secs"],
    ["diff_summary", "leaves", "total_time"], ["diff_summary", "leaves", "total_comparisons"],
    ["diff_summary", "leaves", "exact_matches"], ["diff_summary", "leaves", "similarity_time"],
    ["diff_summary", "leaves", "similarity_checks"],
    ["diff_summary", "leaves", "characters_compared"], ["diff_summary", "bottomup", "total_time"],
    ["diff_summary", "bottomup", "similarity_time"]]

/-- The metrics that every group of runs has statistics of, in order. -/
def aggregationMetricNames : List String :=
  ["duration_wo_similarity", "duration", "l_duration", "bu_duration", "l_no_comp", "l_sim_ms",
    "l_no_chars_comp", "l_exact_matches"]

/-- Whether a text is the key of a statistic of an aggregation metric. -/
def isStatisticKey (key : String) : Bool :=
  Stats.Statistic.all.any fun s =>
    aggregationMetricNames.any fun m => Stats.statisticKey m s.suffix == key

/-- A counter of a reported leaves phase. -/
def LeavesReport.counter? (r : LeavesReport α) : String → Option α
  | "total_time" => r.totalTime
  | "total_comparisons" => r.totalComparisons.map scalarOfCount
  | "exact_matches" => r.exactMatches.map scalarOfCount
  | "similarity_time" => r.similarityTime
  | "similarity_checks" => r.similarityChecks.map scalarOfCount
  | "characters_compared" => r.charactersCompared.map scalarOfCount
  | _ => none

/-- A counter of a reported bottom-up phase. -/
def BottomUpReport.counter? (r : BottomUpReport α) : String → Option α
  | "total_time" => r.totalTime
  | "similarity_time" => r.similarityTime
  | _ => none

/-- A counter of a complete leaves phase. -/
def LeavesPhase.counter? (p : LeavesPhase α) : String → Option α
  | "total_time" => some p.totalTime
  | "total_comparisons" => some (scalarOfCount p.totalComparisons)
  | "exact_matches" => some (scalarOfCount p.exactMatches)
  | "similarity_time" => some p.similarityTime
  | "similarity_checks" => some (scalarOfCount p.similarityChecks)
  | "characters_compared" => some (scalarOfCount p.charactersCompared)
  | _ => none

/-- A counter of a complete bottom-up phase. -/
def BottomUpPhase.counter? (p : BottomUpPhase α) : String → Option α
  | "total_time" => some p.totalTime
  | "similarity_time" => some p.similarityTime
  | _ => none

/-- The numeric field of a run at a path. -/
def Run.fieldValue (r : Run α) (path : FieldPath) : Option α :=
  match path.segments with
  | ["test_case_index"] => some (scalarOfCount r.testCase)
  | ["node_count"] => some (scalarOfCount r.nodeCount)
  | ["loc"] => some (scalarOfCount r.loc)
  | ["duration_secs"] => some r.durationSecs
  | ["diff_summary", "leaves", name] => r.leaves?.bind (·.counter? name)
  | ["diff_summary", "bottomup", name] => r.bottomUp?.bind (·.counter? name)
  | _ => none

instance : Measured (Run α) α where
  fieldValue := Run.fieldValue
  hasField path := commonFields.contains path.segments

/-- The numeric field of a group of runs at a path. -/
def RunGroup.fieldValue (g : RunGroup α) (path : FieldPath) : Option α :=
  match path.segments with
  | ["test_case_index"] => some (scalarOfCount g.testCase)
  | ["node_count"] => some (scalarOfCount g.nodeCount)
  | ["loc"] => some (scalarOfCount g.loc)
  | ["duration_secs"] => some g.durationSecs
  | ["no_similarity_checks"] => some (scalarOfCount g.similarityChecks)
  | ["count"] => some ((g.count : Nat) : α)
  | [key] => g.statAt? key
  | ["diff_summary", "leaves", name] => g.breakdown.leaves.counter? name
  | ["diff_summary", "bottomup", name] => g.breakdown.bottomUp.counter? name
  | _ => none

/-- Whether groups of runs have a numeric field at a path; a statistic counts as one if its
metric is always aggregated. -/
def RunGroup.hasField (path : FieldPath) : Bool :=
  match path.segments with
  | ["no_similarity_checks"] => true
  | ["count"] => true
  | [key] => commonFields.contains [key] || isStatisticKey key
  | segments => commonFields.contains segments

instance : Measured (RunGroup α) α where
  fieldValue := RunGroup.fieldValue
  hasField := RunGroup.hasField

end RunCompare
