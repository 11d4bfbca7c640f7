/-
The declared order of a pair.

If exactly one of two configurations is marked as a baseline, the mark alone
decides from which side speedups are measured.  Declaring the pair the other way
round then changes nothing about the files and their speedups, and exchanges
what is kept side by side (`Exchanged`).  For one metric the differences change
their sign, the ratios are inverted (`Delta.Opposes`), and the rank test stays
as it is.
-/
import RunCompare.Proofs.Comparison.Pairing
import RunCompare.Proofs.Stats.RankTest

namespace RunCompare

open Scalar Stats

/-- The pair declared the other way round. -/
def ConfigPair.swap (pair : ConfigPair) : ConfigPair := ⟨pair.second, pair.first⟩

/-- The sides exchanged. -/
def Sides.swap {β : Type} (s : Sides β) : Sides β := ⟨s.second, s.first⟩

/-! ### Baseline and variant -/

namespace ConfigPair

variable {pair : ConfigPair}

theorem baselineFirst_swap (marked : isMarkedBaseline pair.first ≠ isMarkedBaseline pair.second) :
    pair.swap.baselineFirst = !pair.baselineFirst := by
  unfold swap baselineFirst
  cases hfirst : isMarkedBaseline pair.first with
  | true =>
      cases hsecond : isMarkedBaseline pair.second with
      | true => exact absurd (hfirst.trans hsecond.symm) marked
      | false => rfl
  | false =>
      cases hsecond : isMarkedBaseline pair.second with
      | true => rfl
      | false => exact absurd (hfirst.trans hsecond.symm) marked

theorem baseline_swap (marked : isMarkedBaseline pair.first ≠ isMarkedBaseline pair.second) :
    pair.swap.baseline = pair.baseline ∧ pair.swap.variant = pair.variant := by
  unfold baseline variant
  rw [baselineFirst_swap marked]
  cases pair.baselineFirst with
  | true => exact ⟨rfl, rfl⟩
  | false => exact ⟨rfl, rfl⟩

end ConfigPair

section

variable {α : Type} {pair : ConfigPair}

theorem ofPair_swap (groups : List (RunGroup α)) : ofPair pair.swap groups = ofPair pair groups :=
  List.filter_congr fun _ _ => Bool.or_comm _ _

/-- The same files are paired, with the same sides. -/
theorem pairFiles_swap (marked : isMarkedBaseline pair.first ≠ isMarkedBaseline pair.second)
    (groups : List (RunGroup α)) :
    Comparison.pairFiles pair.swap groups = Comparison.pairFiles pair groups := by
  obtain ⟨hbase, hvariant⟩ := ConfigPair.baseline_swap marked
  have hfile : ∀ members : List (RunGroup α),
      Comparison.pairFile pair.swap members = Comparison.pairFile pair members := by
    intro members
    refine Option.ext fun f => ?_
    rw [Comparison.pairFile_eq_some, Comparison.pairFile_eq_some, hbase, hvariant]
  unfold Comparison.pairFiles
  simp only [hfile]

end

/-! ### One metric -/

/-- The relation of two statistics seen from the other side. -/
structure Delta.Opposes (a b : Option ℚ) (d d' : Delta ℚ) : Prop where
  difference : d'.difference = d.difference.map fun x => -x
  ratio : ∀ x y, a = some x → b = some y → x ≠ 0 → y ≠ 0 →
    ∃ r, d.ratio = some r ∧ d'.ratio = some r⁻¹

/-- The comparison of one metric seen from the other side. -/
structure MetricComparison.Opposes (first second : Summary ℚ) (m m' : MetricComparison ℚ) :
    Prop where
  sum : Delta.Opposes (some first.sum) (some second.sum) m.sum m'.sum
  median : Delta.Opposes first.median second.median m.median m'.median
  q1 : Delta.Opposes first.q1 second.q1 m.q1 m'.q1
  q3 : Delta.Opposes first.q3 second.q3 m.q3 m'.q3
  test : m'.test = m.test
  significant005 : m'.significant005 = m.significant005
  significant001 : m'.significant001 = m.significant001

theorem Delta.opposes_none {a b : Option ℚ}
    (h : ∀ x y, a = some x → b = some y → x = 0 ∨ y = 0) :
    Delta.Opposes a b Delta.none Delta.none := by
  refine ⟨rfl, fun x y hx hy hx0 hy0 => ?_⟩
  rcases h x y hx hy with h0 | h0
  · exact absurd h0 hx0
  · exact absurd h0 hy0

section

variable [OpenFunctions]

theorem Delta.opposes_between (a b : Option ℚ) :
    Delta.Opposes a b (Delta.between a b) (Delta.between b a) := by
  cases a with
  | none =>
      cases b with
      | none => exact ⟨rfl, fun x y hx => by cases hx⟩
      | some y => exact ⟨rfl, fun x y hx => by cases hx⟩
  | some x =>
      cases b with
      | none => exact ⟨rfl, fun x y _ hy => by cases hy⟩
      | some y =>
          refine ⟨?_, ?_⟩
          · show some (y - x) = some (-(x - y))
            rw [neg_sub]
          · intro x' y' hx hy hx0 hy0
            cases hx
            cases hy
            refine ⟨x / y, if_neg ?_, ?_⟩
            · simpa using hy0
            · refine (if_neg ?_).trans (congrArg some (inv_div x y).symm)
              simpa using hx0

/-- Without samples on a side there is nothing to compare. -/
theorem MetricComparison.opposes_empty {xs ys : List ℚ} (h : xs = [] ∨ ys = []) :
    MetricComparison.Opposes (Summary.ofSamples xs) (Summary.ofSamples ys) empty empty := by
  have hsum : (Summary.ofSamples ([] : List ℚ)).sum = 0 := by
    show Scalar.sum (sorted ([] : List ℚ)) = 0
    rw [sum_eq, sorted, List.mergeSort_nil, List.sum_nil]
  have hquartiles : (Summary.ofSamples ([] : List ℚ)).q1 = none ∧
      (Summary.ofSamples ([] : List ℚ)).median = none ∧
      (Summary.ofSamples ([] : List ℚ)).q3 = none := quartiles_ofSamples_nil
  refine ⟨Delta.opposes_none ?_, Delta.opposes_none ?_, Delta.opposes_none ?_,
    Delta.opposes_none ?_, rfl, rfl, rfl⟩
  · intro x y hx hy
    cases hx
    cases hy
    exact h.imp (fun h => by rw [h]; exact hsum) (fun h => by rw [h]; exact hsum)
  all_goals
    intro x y hx hy
    rcases h with rfl | rfl
    · simp [hquartiles] at hx
    · simp [hquartiles] at hy

theorem MetricComparison.opposes_between (xs ys : List ℚ) :
    MetricComparison.Opposes (Summary.ofSamples xs) (Summary.ofSamples ys)
      (between (Summary.ofSamples xs) (Summary.ofSamples ys) xs ys)
      (between (Summary.ofSamples ys) (Summary.ofSamples xs) ys xs) := by
  have htest : (RankTest.ofSamples ys xs : Option (RankTest ℚ)) = RankTest.ofSamples xs ys :=
    ofSamples_comm (orderedBy_id (xs ++ ys))
  unfold between
  rw [isEmpty_ofSamples, isEmpty_ofSamples, Bool.or_comm ys.isEmpty]
  by_cases h : (xs.isEmpty || ys.isEmpty) = true
  · rw [if_pos h, if_pos h]
    rw [Bool.or_eq_true, List.isEmpty_iff, List.isEmpty_iff] at h
    exact opposes_empty h
  · rw [if_neg h, if_neg h]
    refine ⟨Delta.opposes_between _ _, Delta.opposes_between _ _, Delta.opposes_between _ _,
      Delta.opposes_between _ _, htest, ?_, ?_⟩
    · exact congrArg (fun t => Option.any (·.significantAt weakLevel) t) htest
    · exact congrArg (fun t => Option.any (·.significantAt strongLevel) t) htest

/-! ### The whole comparison -/

/-- A comparison seen from the other side. -/
structure Comparison.Exchanged (catalog : Catalog (RunGroup ℚ) ℚ) (c c' : Comparison ℚ) :
    Prop where
  pair : c'.pair = c.pair.swap
  hasData : c'.hasData = c.hasData
  groups : c'.groups = c.groups
  speedups : c'.speedups = c.speedups
  regression : c'.regression = c.regression
  checksReduction : c'.checksReduction = c.checksReduction
  speedupSummary : c'.speedupStats.summary = c.speedupStats.summary
  undefined : c'.speedupStats.undefined = c.speedupStats.undefined
  firstBetter : c'.speedupStats.firstBetter = c.speedupStats.secondBetter
  secondBetter : c'.speedupStats.secondBetter = c.speedupStats.firstBetter
  firstShare : c'.speedupStats.share c'.speedupStats.firstBetter =
    c.speedupStats.share c.speedupStats.secondBetter
  secondShare : c'.speedupStats.share c'.speedupStats.secondBetter =
    c.speedupStats.share c.speedupStats.firstBetter
  summaries : c'.summaries = c.summaries.swap
  similarityShares : c'.similarityShares = c.similarityShares.swap
  overhead : c'.overhead = c.overhead.swap
  metrics : ∀ m ∈ catalog.metrics, ∃ first second d d',
    c.summaries.first.get? m.name = some first ∧ c.summaries.second.get? m.name = some second ∧
    c.metrics.get? m.name = some d ∧ c'.metrics.get? m.name = some d' ∧
    MetricComparison.Opposes first second d d'

theorem exchanged_empty (catalog : Catalog (RunGroup ℚ) ℚ) (pair : ConfigPair) :
    Comparison.Exchanged catalog (Comparison.empty catalog pair)
      (Comparison.empty catalog pair.swap) := by
  refine ⟨rfl, rfl, rfl, rfl, rfl, rfl, rfl, rfl, rfl, rfl, rfl, rfl, rfl, rfl, rfl, ?_⟩
  intro m hm
  exact ⟨_, _, _, _, get?_ofNames catalog _ hm, get?_ofNames catalog _ hm,
    get?_ofNames catalog _ hm, get?_ofNames catalog _ hm,
    MetricComparison.opposes_empty (Or.inl rfl)⟩

/-- The statistics of speedups with the sides exchanged. -/
def SpeedupStats.swap (s : SpeedupStats ℚ) : SpeedupStats ℚ :=
  ⟨s.summary, s.secondBetter, s.firstBetter, s.undefined⟩

theorem ofSpeedups_not (speedups : List ℚ) (baselineFirst : Bool) (undefined : Nat) :
    SpeedupStats.ofSpeedups speedups (!baselineFirst) undefined =
      (SpeedupStats.ofSpeedups speedups baselineFirst undefined).swap := by
  cases baselineFirst with
  | true => rfl
  | false => rfl

section

variable (catalog : Catalog (RunGroup ℚ) ℚ) {pair : ConfigPair}
  (marked : isMarkedBaseline pair.first ≠ isMarkedBaseline pair.second)
  (groups : List (RunGroup ℚ))

include marked

theorem speedups_swap : (Comparison.ofGroups catalog pair.swap groups).speedups =
    (Comparison.ofGroups catalog pair groups).speedups :=
  congrArg (fun paired => paired.filterMap (·.point?)) (pairFiles_swap marked groups)

theorem speedupStats_swap : (Comparison.ofGroups catalog pair.swap groups).speedupStats =
    (Comparison.ofGroups catalog pair groups).speedupStats.swap := by
  show SpeedupStats.ofSpeedups
    ((Comparison.ofGroups catalog pair.swap groups).speedups.map (·.speedup)) _
      ((Comparison.pairFiles pair.swap groups).countP (·.point?.isNone)) = _
  rw [speedups_swap catalog marked, pairFiles_swap marked, ConfigPair.baselineFirst_swap marked,
    ofSpeedups_not]
  rfl

theorem exchanged_ofGroups :
    Comparison.Exchanged catalog (Comparison.ofGroups catalog pair groups)
      (Comparison.ofGroups catalog pair.swap groups) := by
  have hspeedups := speedups_swap catalog marked groups
  have hstats := speedupStats_swap catalog marked groups
  refine ⟨rfl, rfl, rfl, hspeedups, ?_, ?_, by rw [hstats]; rfl, by rw [hstats]; rfl,
    by rw [hstats]; rfl, by rw [hstats]; rfl, by rw [hstats]; rfl, by rw [hstats]; rfl,
    rfl, rfl, rfl, ?_⟩
  · show Regression.ofPoints
      ((Comparison.ofGroups catalog pair.swap groups).speedups.map _) = _
    rw [hspeedups]
    rfl
  · show ReductionStats.ofPairs ((Comparison.pairFiles pair.swap groups).map _) = _
    rw [pairFiles_swap marked groups]
    rfl
  · intro m hm
    exact ⟨_, _, _, _, get?_ofMetrics catalog _ hm, get?_ofMetrics catalog _ hm,
      get?_ofMetrics catalog _ hm, get?_ofMetrics catalog _ hm,
      MetricComparison.opposes_between _ _⟩

end

/--
**A pair with one marked baseline may be declared either way round.**

The files, their speedups and everything computed from them stay the same; what
belongs to one of the two names goes with it.
-/
theorem compare_swap (catalog : Catalog (RunGroup ℚ) ℚ) (groups : List (RunGroup ℚ))
    (pair : ConfigPair) (marked : isMarkedBaseline pair.first ≠ isMarkedBaseline pair.second) :
    Comparison.Exchanged catalog (compare catalog groups pair)
      (compare catalog groups pair.swap) := by
  rw [compare_eq, compare_eq, ofPair_swap]
  show Comparison.Exchanged catalog _ (if (Comparison.ofConfig pair.second groups).isEmpty
      || (Comparison.ofConfig pair.first groups).isEmpty then _ else _)
  rw [Bool.or_comm (Comparison.ofConfig pair.second groups).isEmpty]
  split
  · exact exchanged_empty catalog pair
  · exact exchanged_ofGroups catalog marked _

end

/-- Two files on both sides, the second with one time on both. -/
def levelGroups : List (RunGroup ℚ) :=
  [.timed "a" "Fast" 2 3, .timed "b" "Baseline" 5 4, .timed "a" "Baseline" 6 3,
    .timed "b" "Fast" 5 4]

theorem compare_swap_levelGroups :
    letI := OpenFunctions.rational
    isMarkedBaseline "Fast" ≠ isMarkedBaseline "Baseline" ∧
    Comparison.Exchanged durationMeanCatalog
      (compare durationMeanCatalog levelGroups ⟨"Fast", "Baseline"⟩)
      (compare durationMeanCatalog levelGroups ⟨"Baseline", "Fast"⟩) := by
  let _ : OpenFunctions := OpenFunctions.rational
  have marked : isMarkedBaseline "Fast" ≠ isMarkedBaseline "Baseline" := by decide
  exact ⟨marked, compare_swap durationMeanCatalog levelGroups ⟨"Fast", "Baseline"⟩ marked⟩

end RunCompare
