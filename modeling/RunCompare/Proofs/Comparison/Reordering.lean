/-
Comparisons of groups that come in another order.

A permutation of the groups moves the groups of both sides, the files that are
paired and the points of the regression.  A file is paired by what the two sides
have of it, so the same files are paired (`pairFiles_perm`), and every number of
a comparison is a statistic of one of these lists.  What is left of the order is
the order of the two lists that are handed on as they are (`Comparison.Rearranged`).

The numbers are exact: a rounded sum depends on the order of its terms.
-/
import RunCompare.Proofs.Aggregation.Reordering
import RunCompare.Proofs.Comparison.Pairing
import RunCompare.Proofs.Stats.RankTest
import RunCompare.Proofs.Stats.Reordering

namespace RunCompare

open Scalar Stats

/-- Two comparisons that differ in the order of their groups and of their speedups only. -/
structure Comparison.Rearranged {α : Type} (c c' : Comparison α) : Prop where
  pair : c.pair = c'.pair
  hasData : c.hasData = c'.hasData
  groups : c.groups.Perm c'.groups
  speedups : c.speedups.Perm c'.speedups
  summaries : c.summaries = c'.summaries
  metrics : c.metrics = c'.metrics
  speedupStats : c.speedupStats = c'.speedupStats
  regression : c.regression = c'.regression
  checksReduction : c.checksReduction = c'.checksReduction
  similarityShares : c.similarityShares = c'.similarityShares
  overhead : c.overhead = c'.overhead

/-! ### Paired files -/

section

variable {α : Type} {pair : ConfigPair} {groups groups' : List (RunGroup α)}

theorem inFile_perm (h : groups.Perm groups') (file config : String) :
    (inFile groups file config).Perm (inFile groups' file config) := h.filter _

/-- A file is measured once on each side by the same groups, whatever their order. -/
theorem pairs_perm (h : groups.Perm groups') {file : String} {f : Comparison.PairedFile α}
    (hf : Pairs pair groups file f) : Pairs pair groups' file f := by
  obtain ⟨hbase, hvariant⟩ := hf
  have hbase' := inFile_perm h file pair.baseline
  have hvariant' := inFile_perm h file pair.variant
  rw [hbase] at hbase'
  rw [hvariant] at hvariant'
  exact ⟨List.singleton_perm.mp hbase' |>.symm, List.singleton_perm.mp hvariant' |>.symm⟩

/-- **The same files are paired in every order of the groups.** -/
theorem pairFiles_perm (h : groups.Perm groups') :
    (Comparison.pairFiles pair groups).Perm (Comparison.pairFiles pair groups') := by
  have hnodup : ∀ gs : List (RunGroup α), (Comparison.pairFiles pair gs).Nodup := fun gs =>
    Comparison.pairFiles_distinct.of_map
  rw [List.perm_ext_iff_of_nodup (hnodup groups) (hnodup groups')]
  intro f
  rw [Comparison.mem_pairFiles, Comparison.mem_pairFiles]
  exact ⟨pairs_perm h, pairs_perm h.symm⟩

end

/-! ### What is computed from groups and from files -/

section

variable [OpenFunctions] {groups groups' : List (RunGroup ℚ)}

theorem summarize_perm (catalog : Catalog (RunGroup ℚ) ℚ) (h : groups.Perm groups') :
    Comparison.summarize catalog groups = Comparison.summarize catalog groups' := by
  unfold Comparison.summarize
  refine congrArg KeyMap.ofList (List.map_congr_left fun m _ => ?_)
  rw [summary_perm (m.values_perm h)]

theorem MetricComparison.between_perm {xs xs' ys ys' : List ℚ} (h : xs.Perm xs')
    (h' : ys.Perm ys') : between (Summary.ofSamples xs) (Summary.ofSamples ys) xs ys =
      between (Summary.ofSamples xs') (Summary.ofSamples ys') xs' ys' := by
  have htest : (RankTest.ofSamples xs ys : Option (RankTest ℚ)) = RankTest.ofSamples xs' ys' :=
    ofSamples_perm (orderedBy_id _) h h'
  unfold between
  rw [summary_perm h, summary_perm h', htest]

theorem compareMetrics_perm (catalog : Catalog (RunGroup ℚ) ℚ)
    {seconds seconds' : List (RunGroup ℚ)} (h : groups.Perm groups')
    (h' : seconds.Perm seconds') :
    Comparison.compareMetrics catalog groups seconds =
      Comparison.compareMetrics catalog groups' seconds' := by
  unfold Comparison.compareMetrics
  refine congrArg KeyMap.ofList (List.map_congr_left fun m _ => ?_)
  exact congrArg (m.name, ·) (MetricComparison.between_perm (m.values_perm h) (m.values_perm h'))

theorem totalDuration_perm (h : groups.Perm groups') :
    Comparison.totalDuration groups = Comparison.totalDuration groups' :=
  sum_perm (h.filterMap _)

theorem similaritySharesOf_perm (h : groups.Perm groups') :
    Comparison.similaritySharesOf groups = Comparison.similaritySharesOf groups' := by
  unfold Comparison.similaritySharesOf
  rw [totalDuration_perm h, sum_map_perm h, sum_map_perm h]

theorem overheadOf_perm (h : groups.Perm groups') :
    Comparison.overheadOf groups = Comparison.overheadOf groups' := by
  unfold Comparison.overheadOf
  rw [totalDuration_perm h, sum_map_perm h]

theorem ofSpeedups_perm {speedups speedups' : List ℚ} (h : speedups.Perm speedups')
    (baselineFirst : Bool) (undefined : Nat) :
    SpeedupStats.ofSpeedups speedups baselineFirst undefined =
      SpeedupStats.ofSpeedups speedups' baselineFirst undefined := by
  unfold SpeedupStats.ofSpeedups
  rw [summary_perm h, h.countP_eq, h.countP_eq]

theorem ofPairs_perm {pairs pairs' : List (ℚ × ℚ)} (h : pairs.Perm pairs') :
    ReductionStats.ofPairs pairs = ReductionStats.ofPairs pairs' := by
  unfold ReductionStats.ofPairs
  rw [summary_perm (h.filterMap _), h.countP_eq]

/-! ### The whole comparison -/

theorem ofGroups_perm (catalog : Catalog (RunGroup ℚ) ℚ) (pair : ConfigPair)
    (h : groups.Perm groups') : Comparison.Rearranged (Comparison.ofGroups catalog pair groups)
      (Comparison.ofGroups catalog pair groups') := by
  have hside : ∀ config, (Comparison.ofConfig config groups).Perm
      (Comparison.ofConfig config groups') := fun config => h.filter _
  have hpaired : (Comparison.pairFiles pair groups).Perm (Comparison.pairFiles pair groups') :=
    pairFiles_perm h
  have hspeedups : ((Comparison.pairFiles pair groups).filterMap (·.point?)).Perm
      ((Comparison.pairFiles pair groups').filterMap (·.point?)) := hpaired.filterMap _
  refine ⟨rfl, rfl, h, hspeedups, ?_, ?_, ?_, ?_, ?_, ?_, ?_⟩
  · exact congrArg₂ Sides.mk (summarize_perm catalog (hside _)) (summarize_perm catalog (hside _))
  · exact compareMetrics_perm catalog (hside _) (hside _)
  · unfold Comparison.ofGroups
    simp only [hpaired.countP_eq, ofSpeedups_perm (hspeedups.map _)]
  · exact regression_perm (hspeedups.map _)
  · exact ofPairs_perm (hpaired.map _)
  · exact congrArg₂ Sides.mk (similaritySharesOf_perm (hside _)) (similaritySharesOf_perm (hside _))
  · exact congrArg₂ Sides.mk (overheadOf_perm (hside _)) (overheadOf_perm (hside _))

/-- Of the groups only those of the two configurations matter, and not their order. -/
theorem rearranged_of_ofPair (catalog : Catalog (RunGroup ℚ) ℚ) {pair : ConfigPair}
    (h : (ofPair pair groups).Perm (ofPair pair groups')) :
    Comparison.Rearranged (compare catalog groups pair) (compare catalog groups' pair) := by
  have hside : ∀ config, config = pair.first ∨ config = pair.second →
      (Comparison.ofConfig config groups).isEmpty =
        (Comparison.ofConfig config groups').isEmpty := by
    intro config hconfig
    have hleft : Comparison.ofConfig config (ofPair pair groups) =
        Comparison.ofConfig config groups := ofConfig_ofPair hconfig
    have hright : Comparison.ofConfig config (ofPair pair groups') =
        Comparison.ofConfig config groups' := ofConfig_ofPair hconfig
    rw [← hleft, ← hright]
    exact (h.filter _).isEmpty_eq
  rw [compare_eq, compare_eq, hside _ (Or.inl rfl), hside _ (Or.inr rfl)]
  split
  · exact ⟨rfl, rfl, List.Perm.refl _, List.Perm.refl _, rfl, rfl, rfl, rfl, rfl, rfl, rfl⟩
  · exact ofGroups_perm catalog pair h

/--
**A comparison does not depend on the order of the groups.**

Only the groups and the speedups that it lists come in the order in which the
groups came.
-/
theorem compare_perm (catalog : Catalog (RunGroup ℚ) ℚ) (pair : ConfigPair)
    (h : groups.Perm groups') : Comparison.Rearranged (compare catalog groups pair)
      (compare catalog groups' pair) :=
  rearranged_of_ofPair catalog (h.filter _)

end

/-- Three files, two of them measured on both sides and one of these with a tie, and a group of
another configuration. -/
def shuffledGroups : List (RunGroup ℚ) :=
  [.timed "a" "Fast" 2 3, .timed "b" "Baseline" 5 4, .timed "c" "Other" 1 7,
    .timed "a" "Baseline" 6 8, .timed "b" "Fast" 5 4, .timed "c" "Fast" 3 1]

theorem compare_perm_shuffledGroups :
    letI := OpenFunctions.rational
    shuffledGroups.Perm shuffledGroups.reverse ∧
    Comparison.Rearranged (compare durationMeanCatalog shuffledGroups ⟨"Fast", "Baseline"⟩)
      (compare durationMeanCatalog shuffledGroups.reverse ⟨"Fast", "Baseline"⟩) := by
  let _ : OpenFunctions := OpenFunctions.rational
  have h : shuffledGroups.Perm shuffledGroups.reverse := (List.reverse_perm _).symm
  exact ⟨h, compare_perm durationMeanCatalog ⟨"Fast", "Baseline"⟩ h⟩

end RunCompare
