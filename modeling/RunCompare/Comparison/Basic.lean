/-
The comparison of two configurations.

The groups of both sides are compared metric by metric, whether or not their
files are measured on both sides.  Speedups are taken over the files that have
exactly one group on each side, from the baseline to the variant.
-/
import RunCompare.Comparison.Metric
import RunCompare.Comparison.Pair
import RunCompare.Comparison.Speedup
import RunCompare.Grouping
import RunCompare.Metric.Catalog
import RunCompare.Metric.Fields
import RunCompare.Stats.Regression

namespace RunCompare

variable {α : Type} [Scalar α]

open Scalar Stats

/-- The shares of a side's total duration that its similarity computations take. -/
structure SimilarityShares (α : Type) where
  leaves : Option α
  bottomUp : Option α
  total : Option α

/-- The comparison of two configurations. -/
structure Comparison (α : Type) where
  pair : ConfigPair
  /-- Whether both sides have groups. -/
  hasData : Bool
  /-- The groups of both sides. -/
  groups : List (RunGroup α)
  speedups : List (SpeedupPoint α)
  /-- The summary of every metric on each side. -/
  summaries : Sides (KeyMap (Summary α))
  metrics : KeyMap (MetricComparison α)
  speedupStats : SpeedupStats α
  /-- The line of the speedups over the lines of code. -/
  regression : Regression α
  /-- The reduction of similarity checks over the paired files. -/
  checksReduction : ReductionStats α
  similarityShares : Sides (SimilarityShares α)
  /-- The share of each side's total duration that is spent in neither phase. -/
  overhead : Sides (Option α)

namespace Comparison

/-- The comparison of a pair without groups on one of its sides. -/
def empty (catalog : Catalog (RunGroup α) α) (pair : ConfigPair) : Comparison α :=
  let summaries := KeyMap.ofList (catalog.names.map (·, Summary.empty))
  { pair
    hasData := false
    groups := []
    speedups := []
    summaries := ⟨summaries, summaries⟩
    metrics := KeyMap.ofList (catalog.names.map (·, MetricComparison.empty))
    speedupStats := SpeedupStats.empty
    regression := Regression.empty
    checksReduction := ReductionStats.empty
    similarityShares := ⟨⟨none, none, none⟩, ⟨none, none, none⟩⟩
    overhead := ⟨none, none⟩ }

/-! ### Paired files -/

/-- A file with exactly one group on each side. -/
structure PairedFile (α : Type) where
  baseline : RunGroup α
  variant : RunGroup α

/-- The groups of one configuration. -/
def ofConfig (name : String) (groups : List (RunGroup α)) : List (RunGroup α) :=
  groups.filter (·.config == name)

/-- The pairing of one file's groups, if each side has exactly one. -/
def pairFile (pair : ConfigPair) (groups : List (RunGroup α)) : Option (PairedFile α) :=
  match ofConfig pair.first groups, ofConfig pair.second groups with
  | [first], [second] => some (if pair.baselineFirst then ⟨first, second⟩ else ⟨second, first⟩)
  | _, _ => none

/-- The files with exactly one group on each side. -/
def pairFiles (pair : ConfigPair) (groups : List (RunGroup α)) : List (PairedFile α) :=
  (groupBy (·.file) groups).filterMap fun g => pairFile pair g.members

/-- The speedup of a paired file; absent unless both mean durations are present, finite and
above zero. -/
def PairedFile.speedup? (f : PairedFile α) : Option α := do
  signedRatio (← f.baseline.durationMean?) (← f.variant.durationMean?)

/-- The point of a paired file, if it has a speedup. -/
def PairedFile.point? (f : PairedFile α) : Option (SpeedupPoint α) :=
  f.speedup?.map fun speedup =>
    { file := f.variant.file, config := f.variant.config, loc := f.variant.loc,
      nodeCount := f.variant.nodeCount, speedup }

/-- The similarity checks of baseline and variant. -/
def PairedFile.checks (f : PairedFile α) : α × α :=
  (scalarOfCount f.baseline.breakdown.leaves.similarityChecks,
    scalarOfCount f.variant.breakdown.leaves.similarityChecks)

/-! ### Shares of the total duration -/

/-- The sum of the mean durations of groups. -/
def totalDuration (groups : List (RunGroup α)) : α := sum (groups.filterMap (·.durationMean?))

/-- A part of a total; absent if the total is zero. -/
def shareOf (part total : α) : Option α := if total == zero then none else some (part / total)

/-- The shares of the total duration that similarity computations take. -/
def similaritySharesOf (groups : List (RunGroup α)) : SimilarityShares α :=
  let duration := totalDuration groups
  let leaves := sum (groups.map (·.breakdown.leaves.similarityTime))
  let bottomUp := sum (groups.map (·.breakdown.bottomUp.similarityTime))
  { leaves := shareOf leaves duration
    bottomUp := shareOf bottomUp duration
    total := shareOf (leaves + bottomUp) duration }

/-- The share of the total duration that is spent in neither phase. -/
def overheadOf (groups : List (RunGroup α)) : Option α :=
  let duration := totalDuration groups
  shareOf (duration - sum (groups.map (·.breakdown.phaseTime))) duration

/-! ### The comparison -/

/-- The summary of every metric of a catalog over some groups. -/
def summarize (catalog : Catalog (RunGroup α) α) (groups : List (RunGroup α)) :
    KeyMap (Summary α) :=
  KeyMap.ofList (catalog.metrics.map fun m => (m.name, Summary.ofSamples (m.values groups)))

/-- The comparison of every metric of a catalog between the groups of two sides. -/
def compareMetrics (catalog : Catalog (RunGroup α) α) (first second : List (RunGroup α)) :
    KeyMap (MetricComparison α) :=
  KeyMap.ofList (catalog.metrics.map fun m =>
    let firstValues := m.values first
    let secondValues := m.values second
    (m.name, MetricComparison.between (Summary.ofSamples firstValues)
      (Summary.ofSamples secondValues) firstValues secondValues))

/-- The comparison of a pair that has groups on both sides. -/
def ofGroups (catalog : Catalog (RunGroup α) α) (pair : ConfigPair) (groups : List (RunGroup α)) :
    Comparison α :=
  let sides : Sides _ := ⟨ofConfig pair.first groups, ofConfig pair.second groups⟩
  let paired := pairFiles pair groups
  let speedups := paired.filterMap (·.point?)
  { pair
    hasData := true
    groups
    speedups
    summaries := sides.map (summarize catalog)
    metrics := compareMetrics catalog sides.first sides.second
    speedupStats :=
      SpeedupStats.ofSpeedups (speedups.map (·.speedup)) pair.baselineFirst
        (paired.countP (·.point?.isNone))
    regression := Regression.ofPoints (speedups.map fun p => (scalarOfCount p.loc, p.speedup))
    checksReduction := ReductionStats.ofPairs (paired.map (·.checks))
    similarityShares := sides.map similaritySharesOf
    overhead := sides.map overheadOf }

end Comparison

/-- Compares the two configurations of a pair. -/
def compare (catalog : Catalog (RunGroup α) α) (groups : List (RunGroup α)) (pair : ConfigPair) :
    Comparison α :=
  let concerned := groups.filter fun g => g.config == pair.first || g.config == pair.second
  if (Comparison.ofConfig pair.first concerned).isEmpty
      || (Comparison.ofConfig pair.second concerned).isEmpty then
    Comparison.empty catalog pair
  else Comparison.ofGroups catalog pair concerned

/-- Compares every pair, in order. -/
def compareAll (catalog : Catalog (RunGroup α) α) (groups : List (RunGroup α))
    (pairs : List ConfigPair) : List (Comparison α) :=
  pairs.map (compare catalog groups)

end RunCompare
