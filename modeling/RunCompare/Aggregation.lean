/-
Aggregation of runs into groups.

Runs are grouped by test case and then by configuration, each in order of first
appearance.  A run that lacks a part of its report makes the whole data set
unusable: it is never skipped.  The groups are listed by falling node count.
-/
import RunCompare.Grouping
import RunCompare.Metric.Catalog
import RunCompare.Metric.Fields

namespace RunCompare

variable {α : Type} [Scalar α]

open Stats

/-- The runs of each configuration on each test case. -/
def groupRuns (runs : List (Run α)) : List (Group String (Run α)) :=
  (groupBy (·.testCase) runs).flatMap fun testCase => groupBy (·.config) testCase.members

/-- The statistics of every metric of a catalog over some runs. -/
def describeRuns (catalog : Catalog (Run α) α) (runs : List (Run α)) : KeyMap (Option α) :=
  catalog.metrics.foldl
    (fun stats m =>
      stats.insertAll (statisticFields m.name (Description.ofSamples (m.values runs))))
    KeyMap.empty

/-- The keys that aggregation computes besides the statistics. -/
def computedKeys : List String := ["no_similarity_checks", "count"]

/-- The unknown fields of a run that are not named like a computed one. -/
def passedThrough (stats : KeyMap (Option α)) (run : Run α) : KeyMap (Json α) :=
  run.others.filter fun key _ => !stats.contains key && !computedKeys.contains key

/-- The summary of the runs of one configuration on one test case. -/
def aggregateGroup (catalog : Catalog (Run α) α) (group : Group String (Run α)) :
    Except AnalysisError (RunGroup α) := do
  group.members.forM Run.validate
  let first := group.first
  let breakdown ← first.requireBreakdown
  let stats := describeRuns catalog group.members
  return {
    file := first.file
    config := first.config
    testCase := first.testCase
    nodeCount := first.nodeCount
    loc := first.loc
    durationSecs := first.durationSecs
    breakdown
    similarityChecks := breakdown.leaves.similarityChecks
    count := group.members.length
    stats
    others := passedThrough stats first }

/-- The groups in falling order of their node counts; equal counts keep their order. -/
def byFallingNodeCount (groups : List (RunGroup α)) : List (RunGroup α) :=
  groups.mergeSort fun a b => decide (b.nodeCount ≤ a.nodeCount)

/-- Aggregates runs with the metrics of a catalog. -/
def aggregate (catalog : Catalog (Run α) α) (runs : List (Run α)) :
    Except AnalysisError (List (RunGroup α)) := do
  return byFallingNodeCount (← (groupRuns runs).mapM (aggregateGroup catalog))

end RunCompare
