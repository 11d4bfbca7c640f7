/-
No analysis divides by zero or takes the root of a negative number.

The statistics do not (`Faults/Stats.lean`), and every other quotient of the
analysis has a divisor that was tested before: a share of a total, a relation
between two statistics, a speedup.  So the whole analysis gives one report,
whatever the faulty operations give (`analyze_eq`).
-/
import RunCompare.Analysis
import RunCompare.Proofs.Faults.Stats

namespace RunCompare.PartialRat

open Stats Scalar

variable {c : Choices} {f o : Faults}

/-! ### Aggregation -/

theorem aggregationCatalog_eq :
    @aggregationCatalog _ (scalar c f) = @aggregationCatalog _ (scalar c o) := rfl

theorem describeRuns_eq : @describeRuns _ (scalar c f) = @describeRuns _ (scalar c o) := by
  unfold describeRuns
  rw [description_eq (o := o)]
  rfl

theorem aggregate_eq : @aggregate _ (scalar c f) = @aggregate _ (scalar c o) := by
  unfold aggregate aggregateGroup
  rw [describeRuns_eq (o := o)]

/-! ### Metrics of groups -/

theorem perDuration?_eq :
    @RunGroup.perDuration? _ (scalar c f) = @RunGroup.perDuration? _ (scalar c o) := by
  funext g quantity
  unfold RunGroup.perDuration?
  cases g.durationMean? with
  | none => rfl
  | some duration => exact ite_zero_div_eq some quantity duration none

theorem overheadRatio?_eq :
    @RunGroup.overheadRatio? _ (scalar c f) = @RunGroup.overheadRatio? _ (scalar c o) := by
  unfold RunGroup.overheadRatio?
  rw [perDuration?_eq (o := o)]

theorem comparisonCatalog_eq :
    @comparisonCatalog _ (scalar c f) = @comparisonCatalog _ (scalar c o) := by
  unfold comparisonCatalog comparisonDefinitions
  rw [perDuration?_eq (o := o), overheadRatio?_eq (o := o)]
  rfl

/-! ### Comparisons of metrics -/

theorem delta_eq : @Delta.between _ (scalar c f) = @Delta.between _ (scalar c o) := by
  have hnumbers : ∀ a b : PartialRat,
      @Delta.ofNumbers _ (scalar c f) a b = @Delta.ofNumbers _ (scalar c o) a b := by
    intro a b
    unfold Delta.ofNumbers
    rw [Delta.mk.injEq]
    refine ⟨rfl, ite_zero_div_eq some a b none, ?_⟩
    exact ite_zero_div_eq (fun q => some (q * ((100 : Nat) : PartialRat))) (a - b) a none
  funext a b
  cases a with
  | none => rfl
  | some a =>
      cases b with
      | none => rfl
      | some b => exact hnumbers a b

theorem metricComparison_eq :
    @MetricComparison.between _ (scalar c f) = @MetricComparison.between _ (scalar c o) := by
  have hweak : @MetricComparison.weakLevel _ (scalar c f) =
      @MetricComparison.weakLevel _ (scalar c o) := div_eq _ (natCast_ne_zero (by decide))
  have hstrong : @MetricComparison.strongLevel _ (scalar c f) =
      @MetricComparison.strongLevel _ (scalar c o) := div_eq _ (natCast_ne_zero (by decide))
  unfold MetricComparison.between
  rw [delta_eq (o := o), rankTest_eq (o := o), hweak, hstrong]
  rfl

/-! ### Speedups and shares -/

/-- Both durations of a signed ratio are above zero, so their quotient is too. -/
theorem signedRatio_eq : @signedRatio _ (scalar c f) = @signedRatio _ (scalar c o) := by
  funext base variant
  by_cases hunusable : (letI _ := scalar c f;
      (!(isFinite base && isFinite variant) || base ≤ zero || variant ≤ zero) = true)
  · exact (if_pos hunusable).trans (if_pos hunusable).symm
  · have hpos : ∀ q, base = num q ∨ variant = num q → 0 < q := by
      have hcases := hunusable
      simp only [Bool.or_eq_true, decide_eq_true_eq, not_or] at hcases
      rintro q (rfl | rfl)
      · exact lt_of_not_ge fun hle => hcases.1.2 (num_le_zero.mpr hle)
      · exact lt_of_not_ge fun hle => hcases.2 (num_le_zero.mpr hle)
    have hratio : (letI _ := scalar c f; base / variant) = (letI _ := scalar c o; base / variant) :=
      div_eq base fun h => lt_irrefl 0 (hpos 0 (Or.inr h))
    have hrecip : (letI _ := scalar c o; base / variant) ≠ num 0 := by
      cases base with
      | undefined => exact nofun
      | num p =>
          cases variant with
          | undefined => exact nofun
          | num q =>
              have hp : 0 < p := hpos p (Or.inl rfl)
              have hq : 0 < q := hpos q (Or.inr rfl)
              intro heq
              have hquotient : num (p / q) = num 0 := (if_neg hq.ne').symm.trans heq
              exact (div_pos hp hq).ne' (num.inj hquotient)
    refine (if_neg hunusable).trans (Eq.trans ?_ (if_neg hunusable).symm)
    dsimp only
    rw [hratio, div_eq (o := o) _ hrecip]
    rfl

theorem speedupStats_eq :
    @SpeedupStats.ofSpeedups _ (scalar c f) = @SpeedupStats.ofSpeedups _ (scalar c o) := by
  unfold SpeedupStats.ofSpeedups
  rw [summary_eq (o := o)]
  rfl

theorem reductionStats_eq :
    @ReductionStats.ofPairs _ (scalar c f) = @ReductionStats.ofPairs _ (scalar c o) := by
  unfold ReductionStats.ofPairs
  rw [summary_eq (o := o), signedRatio_eq (o := o)]

theorem shareOf_eq :
    @Comparison.shareOf _ (scalar c f) = @Comparison.shareOf _ (scalar c o) := by
  funext part total
  exact ite_zero_div_eq some part total none

/-! ### Whole comparisons -/

theorem empty_eq : @Comparison.empty _ (scalar c f) = @Comparison.empty _ (scalar c o) := by
  unfold Comparison.empty Summary.empty SpeedupStats.empty ReductionStats.empty
  rw [summary_eq (o := o), speedupStats_eq (o := o), reductionStats_eq (o := o)]

theorem ofGroups_eq :
    @Comparison.ofGroups _ (scalar c f) = @Comparison.ofGroups _ (scalar c o) := by
  unfold Comparison.ofGroups Comparison.PairedFile.point? Comparison.PairedFile.speedup?
    Comparison.summarize Comparison.compareMetrics Comparison.similaritySharesOf
    Comparison.overheadOf
  rw [summary_eq (o := o), metricComparison_eq (o := o), signedRatio_eq (o := o),
    speedupStats_eq (o := o), regression_eq (o := o), reductionStats_eq (o := o),
    shareOf_eq (o := o)]
  rfl

theorem compare_eq : @compare _ (scalar c f) = @compare _ (scalar c o) := by
  unfold compare
  rw [empty_eq (o := o), ofGroups_eq (o := o)]

/-! ### The pivot table -/

theorem share_eq : @SpeedupStats.share _ (scalar c f) = @SpeedupStats.share _ (scalar c o) := by
  funext s n
  unfold SpeedupStats.share
  by_cases h : s.summary.count = 0
  · rw [if_pos h, if_pos h]
  · rw [if_neg h, if_neg h, div_eq (o := o) _ (natCast_ne_zero h)]

theorem ofComparisons_eq :
    @PivotTable.ofComparisons _ (scalar c f) = @PivotTable.ofComparisons _ (scalar c o) := by
  unfold PivotTable.ofComparisons Comparison.toJson Comparison.fields SpeedupStats.toJson
  rw [share_eq (o := o)]
  rfl

/-! ### The analysis -/

/-- **The report does not depend on what a faulty operation gives.** -/
theorem analyze_eq : @analyze _ (scalar c f) = @analyze _ (scalar c o) := by
  unfold analyze compareAll
  rw [aggregationCatalog_eq (o := o), aggregate_eq (o := o), comparisonCatalog_eq (o := o),
    compare_eq (o := o), ofComparisons_eq (o := o)]

end RunCompare.PartialRat
