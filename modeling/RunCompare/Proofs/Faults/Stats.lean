/-
No statistic divides by zero or takes the root of a negative number.

Every lemma says that a function is the same whatever the faulty operations
give.  Where it divides, the divisor is a constant, the number of samples of a
series that is not empty, or a value that has been tested.
-/
import RunCompare.Comparison.Basic
import RunCompare.Proofs.Faults.Arithmetic
import RunCompare.Proofs.Stats.Summary

namespace RunCompare.PartialRat

open Stats Scalar

variable {c : Choices} {f o : Faults}

/-! ### Moments -/

theorem moments_add_eq : @Moments.add _ (scalar c f) = @Moments.add _ (scalar c o) := by
  funext m x
  have hdiv := fun d : PartialRat =>
    div_eq (c := c) (f := f) (o := o) d (natCast_ne_zero (Nat.succ_ne_zero m.count))
  unfold Moments.add
  simp only [hdiv]

theorem moments_eq : @Moments.ofSamples _ (scalar c f) = @Moments.ofSamples _ (scalar c o) := by
  unfold Moments.ofSamples
  rw [moments_add_eq (o := o)]
  rfl

theorem mean_eq : @mean _ (scalar c f) = @mean _ (scalar c o) := by
  unfold mean
  rw [moments_eq (o := o)]

/-- The variance is not a negative number. -/
theorem variance_nonneg (m : Moments PartialRat) :
    ∀ q, @Moments.variance _ (scalar c f) m = num q → 0 ≤ q := by
  intro q hq
  dsimp only [Moments.variance] at hq
  split at hq
  · rename_i hpos
    rw [hq] at hpos
    exact le_of_lt (zero_lt_num.mp hpos)
  · rw [zero_eq] at hq
    exact le_of_eq (num.inj hq)

/-- The variance of a series that is not empty is divided by its length, and is not negative. -/
theorem stdDev_eq : @stdDev _ (scalar c f) = @stdDev _ (scalar c o) := by
  funext xs
  cases xs with
  | nil => rfl
  | cons x rest =>
      have hcount : (@Moments.ofSamples _ (scalar c o) (x :: rest)).count ≠ 0 := by
        rw [@count_moments _ (scalar c o)]
        exact Nat.succ_ne_zero _
      set m := @Moments.ofSamples _ (scalar c o) (x :: rest) with hm
      have hvariance : @Moments.variance _ (scalar c f) m = @Moments.variance _ (scalar c o) m := by
        unfold Moments.variance
        rw [div_eq (o := o) _ (natCast_ne_zero hcount)]
        rfl
      unfold stdDev
      rw [moments_eq (o := o), ← hm, hvariance, sqrt_eq (o := o) (variance_nonneg m)]

/-! ### Quantiles and outliers -/

theorem percentileRank_eq : @percentileRank _ (scalar c f) = @percentileRank _ (scalar c o) := by
  funext n p
  unfold percentileRank
  rw [div_eq (o := o) _ (natCast_ne_zero (by decide))]

theorem percentileOfSorted_eq :
    @percentileOfSorted _ (scalar c f) = @percentileOfSorted _ (scalar c o) := by
  unfold percentileOfSorted
  rw [percentileRank_eq (o := o)]
  rfl

theorem fenceDistance_eq : @fenceDistance _ (scalar c f) = @fenceDistance _ (scalar c o) :=
  div_eq _ (natCast_ne_zero (by decide))

theorem withoutOutliers_eq :
    @withoutOutliers _ (scalar c f) = @withoutOutliers _ (scalar c o) := by
  unfold withoutOutliers Outliers.detect lowerQuartile upperQuartile Fences.around
  rw [percentileOfSorted_eq (o := o), fenceDistance_eq (o := o)]
  rfl

theorem description_eq :
    @Description.ofSamples _ (scalar c f) = @Description.ofSamples _ (scalar c o) := by
  unfold Description.ofSamples Stats.median
  rw [withoutOutliers_eq (o := o), mean_eq (o := o), percentileOfSorted_eq (o := o),
    stdDev_eq (o := o)]
  rfl

theorem summary_eq : @Summary.ofSamples _ (scalar c f) = @Summary.ofSamples _ (scalar c o) := by
  unfold Summary.ofSamples Summary.ofSorted lowerQuartile Stats.median upperQuartile
  rw [mean_eq (o := o), percentileOfSorted_eq (o := o)]
  rfl

/-! ### The normal distribution and the rank test -/

/-- The divisor in the error function is at least one. -/
theorem erfc_divisor_ne_zero (x : PartialRat) :
    ((1 : Nat) : PartialRat) + (normalFunctions c).ofRatio false 1 2 * (normalFunctions c).abs x ≠
      num 0 := by
  cases x with
  | undefined => exact nofun
  | num q =>
      intro heq
      have hsum : ((1 : Nat) : ℚ) + ((1 : Nat) : ℚ) / ((2 : Nat) : ℚ) * |q| = 0 := num.inj heq
      have hpos : 0 ≤ |q| := abs_nonneg q
      norm_num at hsum
      linarith

theorem sqrtTwo_ne_zero : (normalFunctions c).sqrtTwo ≠ num 0 := by
  intro heq
  have hzero : (6369051672525773 / 4503599627370496 : ℚ) = 0 := num.inj heq
  norm_num at hzero

theorem normalCdf_eq : (scalar c f).normalCdf = (scalar c o).normalCdf := by
  funext x
  show normalCdf c f x = normalCdf c o x
  dsimp only [normalCdf, NormalFunctions.cdf, NormalFunctions.erfc]
  rw [div_eq (c := c) (f := f) (o := o) _ sqrtTwo_ne_zero,
    div_eq (c := c) (f := f) (o := o) _ (erfc_divisor_ne_zero _)]

theorem rankRuns_eq {β : Type} :
    @RankTest.rankRuns _ β (scalar c f) = @RankTest.rankRuns _ β (scalar c o) := by
  funext start runs
  induction runs generalizing start with
  | nil => rfl
  | cons run rest ih =>
      dsimp only [RankTest.rankRuns]
      rw [ih, div_eq (o := o) _ (natCast_ne_zero (by decide))]

theorem rankSum_eq : @RankTest.rankSum _ _ (scalar c f) (scalar c f) =
    @RankTest.rankSum _ _ (scalar c o) (scalar c o) := by
  unfold RankTest.rankSum RankTest.ranks
  rw [rankRuns_eq (o := o)]
  rfl

/-- The variance of the count is not negative, and its root is tested before it divides. -/
theorem rankTest_eq : @RankTest.ofSamples _ _ (scalar c f) (scalar c f) =
    @RankTest.ofSamples _ _ (scalar c o) (scalar c o) := by
  funext first second
  have htwo := fun x : PartialRat =>
    div_eq (c := c) (f := f) (o := o) x (natCast_ne_zero (n := 2) (by decide))
  have htwelve := fun x : PartialRat =>
    div_eq (c := c) (f := f) (o := o) x (natCast_ne_zero (n := 12) (by decide))
  dsimp only [RankTest.ofSamples]
  rw [rankSum_eq (o := o), normalCdf_eq (o := o)]
  simp only [htwo, htwelve]
  rw [sqrt_eq (o := o)]
  · split
    · rfl
    · let _ := scalar c o
      rw [Option.some.injEq, RankTest.mk.injEq]
      refine ⟨rfl, ite_pos_div_eq id _ _ _, ?_⟩
      exact congrArg (fun z => clamp zero one (((2 : Nat) : PartialRat) *
        (one - Scalar.normalCdf (Scalar.abs z)))) (ite_pos_div_eq id _ _ _)
  · intro q hq
    have hvalue : num ((first.length * second.length *
        (first.length + second.length + ((1 : Nat) : ℚ)) / ((12 : Nat) : ℚ))) = num q := hq
    rw [← num.inj hvalue]
    positivity

/-! ### Regression -/

theorem allEqual_eq : ∀ ys : List PartialRat,
    @allEqual _ (scalar c f) ys = @allEqual _ (scalar c o) ys
  | [] => rfl
  | [_] => rfl
  | x :: y :: rest => by
      unfold allEqual
      rw [allEqual_eq (y :: rest)]

theorem fitThrough_eq : @Regression.fitThrough _ (scalar c f) =
    @Regression.fitThrough _ (scalar c o) := by
  funext points meanX meanY
  let _ := scalar c o
  have hslope : ∀ x y : PartialRat,
      (letI _ := scalar c f; if y == zero then zero else x / y) =
        (letI _ := scalar c o; if y == zero then zero else x / y) :=
    fun x y => ite_zero_div_eq id x y _
  dsimp only [Regression.fitThrough]
  rw [hslope, allEqual_eq (o := o), Fit.mk.injEq]
  refine ⟨rfl, rfl, rfl, rfl, ?_⟩
  exact ite_pos_div_eq (c := c) (f := f) (o := o) (fun q => some (one - q)) _ _ none

theorem regression_eq : @Regression.ofPoints _ (scalar c f) =
    @Regression.ofPoints _ (scalar c o) := by
  unfold Regression.ofPoints
  rw [mean_eq (o := o), fitThrough_eq (o := o)]

end RunCompare.PartialRat
