/-
The standard catalogs: what is aggregated over runs, and what is compared
between groups of runs.
-/
import RunCompare.Metric.Catalog
import RunCompare.Metric.Fields

namespace RunCompare

variable {α : Type} [Scalar α]

/-- The wall-clock time of a run less the time of its similarity computations on leaves. -/
def Run.durationWithoutSimilarity? (r : Run α) : Option α := do
  return r.durationMs - (← (← r.leaves?).similarityTime)

/-- The metrics of which every group of runs has statistics; times are in milliseconds. -/
def aggregationDefinitions : List (MetricDefinition (Run α) α) :=
  [.computed "duration_wo_similarity" Run.durationWithoutSimilarity?,
    .computed "duration" fun r => some r.durationMs,
    .field "l_duration" "diff_summary.leaves.total_time",
    .field "bu_duration" "diff_summary.bottomup.total_time",
    .field "l_no_comp" "diff_summary.leaves.total_comparisons",
    .field "l_sim_ms" "diff_summary.leaves.similarity_time",
    .field "l_no_chars_comp" "diff_summary.leaves.characters_compared",
    .field "l_exact_matches" "diff_summary.leaves.exact_matches"]

/-- The catalog of the metrics that are aggregated. -/
def aggregationCatalog : Except AnalysisError (Catalog (Run α) α) :=
  Catalog.ofDefinitions aggregationDefinitions

/-- A quantity as a share of a group's mean duration; absent if there is none or it is zero. -/
def RunGroup.perDuration? (g : RunGroup α) (quantity : α) : Option α := do
  let duration ← g.durationMean?
  if duration == Scalar.zero then none else some (quantity / duration)

/-- The share of a group's mean duration that is spent in neither phase. -/
def RunGroup.overheadRatio? (g : RunGroup α) : Option α := do
  let duration ← g.durationMean?
  g.perDuration? (duration - g.breakdown.phaseTime)

/-- The metrics that are compared between two configurations. -/
def comparisonDefinitions : List (MetricDefinition (RunGroup α) α) :=
  [.field "duration" "duration_mean",
    .field "duration_wo_similarity" "duration_wo_similarity_mean",
    .field "number_similarity_checks" "diff_summary.leaves.similarity_checks",
    .field "leaves_similarity_time" "diff_summary.leaves.similarity_time",
    .field "bottomup_similarity_time" "diff_summary.bottomup.similarity_time",
    .computed "leaves_similarity_ratio" fun g => g.perDuration? g.breakdown.leaves.similarityTime,
    .computed "bottomup_similarity_ratio"
      fun g => g.perDuration? g.breakdown.bottomUp.similarityTime,
    .computed "overhead_ratio" RunGroup.overheadRatio?]

/-- The catalog of the metrics that are compared. -/
def comparisonCatalog : Except AnalysisError (Catalog (RunGroup α) α) :=
  Catalog.ofDefinitions comparisonDefinitions

end RunCompare
