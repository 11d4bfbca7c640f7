/-
Runs of one configuration on one test case, summarized.

A group carries the identifying fields and the breakdown of its first run, the
number of its runs, five statistics for every metric that was aggregated, and
those unknown fields of the first run that are not named like a statistic.
-/
import RunCompare.Run.Phase
import RunCompare.Stats.Description

namespace RunCompare

/-- The summary of all runs of one configuration on one test case. -/
structure RunGroup (α : Type) where
  file : String
  config : String
  testCase : UInt64
  nodeCount : UInt64
  loc : UInt64
  durationSecs : α
  breakdown : Breakdown α
  similarityChecks : UInt64
  /-- The number of runs. -/
  count : Nat
  /-- The statistics by their keys; one without a value was computed from no samples. -/
  stats : KeyMap (Option α)
  others : KeyMap (Json α)

namespace RunGroup

variable {α : Type}

/-- The value under the key of a statistic. -/
def statAt? (g : RunGroup α) (key : String) : Option α := (g.stats.get? key).join

/-- A statistic of a metric. -/
def stat? (g : RunGroup α) (metric suffix : String) : Option α :=
  g.statAt? (Stats.statisticKey metric suffix)

/-- The mean wall-clock time of the runs, in milliseconds. -/
def durationMean? (g : RunGroup α) : Option α := g.stat? "duration" "mean"

/-- The keys of the fields that are neither statistics nor unknown. -/
def fixedKeys : List String :=
  ["file_name", "config_name", "test_case_index", "node_count", "loc", "duration_secs",
    "diff_summary", "no_similarity_checks", "count"]

variable [Scalar α]

open Json

/-- The fixed fields of the flat record. -/
def fixedFields (g : RunGroup α) : List (String × Json α) :=
  [("file_name", .str g.file), ("config_name", .str g.config),
    ("test_case_index", ofCount g.testCase), ("node_count", ofCount g.nodeCount),
    ("loc", ofCount g.loc), ("duration_secs", ofScalar g.durationSecs),
    ("diff_summary", g.breakdown.toJson), ("no_similarity_checks", ofCount g.similarityChecks),
    ("count", .nat g.count)]

/-- The fields of the flat record in the order in which they are written: the fixed ones, the
statistics, and the unknown ones. -/
def flatFields (g : RunGroup α) : List (String × Json α) :=
  g.fixedFields ++ (g.stats.map (ofOption ofScalar)).entries ++ g.others.entries

/-- The flat record; of several fields with one key, the last counts. -/
def toJson (g : RunGroup α) : Json α := object g.flatFields

end RunGroup

end RunCompare
