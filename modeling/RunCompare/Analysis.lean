/-
The whole analysis: aggregation, comparison of every pair, pivot table.
-/
import RunCompare.Aggregation
import RunCompare.Config
import RunCompare.Metric.Standard
import RunCompare.Pivot

namespace RunCompare

/-- Everything that one analysis produces. -/
structure Report (α : Type) where
  name : String
  /-- When the analysis was run. -/
  generatedAt : String
  /-- The number of runs that were analysed. -/
  runCount : Nat
  groups : List (RunGroup α)
  /-- The comparisons, in the order of the configured pairs. -/
  comparisons : List (Comparison α)
  pivot : PivotTable α

/-- Analyses runs with the standard catalogs, as configured. -/
def analyze {α : Type} [Scalar α] (config : Config) (generatedAt : String) (runs : List (Run α)) :
    Except AnalysisError (Report α) := do
  let groups ← aggregate (← aggregationCatalog) runs
  let comparisons := compareAll (← comparisonCatalog) groups config.pairs
  return {
    name := config.name
    generatedAt
    runCount := runs.length
    groups
    comparisons
    pivot := PivotTable.ofComparisons comparisons }

end RunCompare
