/-
The spread that a running pass ends with.

Each step adds the product of two deviations, one from the mean before the sample
and one from the mean after it.  Neither is the deviation from the mean that the
pass ends with, and the products are no squares.  What they add up to is the same at
every length: moving the centre of squares costs the number of samples times the
square of the way (`sum_squares_sub`), and the last sample pays for the way of the
mean (`squaredDeviations_concat`).  The sum of the squared deviations is therefore
what the pass has seen after every prefix, and it is never negative.

The root of the variance lies outside the rationals.  It is taken over the real
numbers, in which the pass over the same samples goes through the same moments.
-/
import RunCompare.Proofs.Stats.Moments
import Mathlib.Analysis.Real.Sqrt
import Mathlib.Tactic.LinearCombination

namespace RunCompare.Stats

open Scalar

/-! ### Squared deviations -/

/-- The mean squared deviation from the average. -/
def populationVariance (xs : List ℚ) : ℚ := squaredDeviations xs / xs.length

theorem populationVariance_nonneg (xs : List ℚ) : 0 ≤ populationVariance xs :=
  div_nonneg (squaredDeviations_nonneg xs) (Nat.cast_nonneg _)

theorem populationVariance_eq_zero_iff {xs : List ℚ} (h : xs ≠ []) :
    populationVariance xs = 0 ↔ ∀ x ∈ xs, ∀ y ∈ xs, x = y := by
  rw [populationVariance, div_eq_zero_iff, or_iff_left (cast_length_ne_zero h),
    squaredDeviations_eq_zero_iff]

/-- **Squares around another centre have the square of the way to it on top, once for every
value.** -/
theorem sum_squares_sub (xs : List ℚ) (c : ℚ) :
    (xs.map fun x => (x - c) ^ 2).sum =
      squaredDeviations xs + xs.length * (average xs - c) ^ 2 := by
  by_cases h : xs = []
  · subst h
    simp [squaredDeviations]
  · have expand : ∀ x : ℚ, (x - c) ^ 2 = (x - average xs) ^ 2 +
        (2 * (average xs - c)) * (x - average xs) + (average xs - c) ^ 2 := by
      intro x
      ring
    rw [List.map_congr_left fun x _ => expand x]
    simp only [List.sum_map_add, List.sum_map_mul_left, sum_sub_average h, mul_zero, add_zero,
      List.map_const', List.sum_replicate, nsmul_eq_mul]
    rfl

/-- One more value moves the average by a share of its deviation. -/
theorem length_mul_average_sub_concat (xs : List ℚ) (x : ℚ) :
    xs.length * (average xs - average (xs ++ [x])) = average (xs ++ [x]) - x := by
  have hafter := length_mul_average (List.append_ne_nil_of_right_ne_nil xs (List.cons_ne_nil x []))
  have hbefore : xs.length * average xs = xs.sum := by
    by_cases h : xs = []
    · subst h
      simp
    · exact length_mul_average h
  simp only [List.length_append, List.length_singleton, Nat.cast_add, Nat.cast_one, List.sum_append,
    List.sum_singleton] at hafter
  linear_combination hbefore - hafter

/-- **One more value adds the product of its deviations from the averages before and after it.** -/
theorem squaredDeviations_concat (xs : List ℚ) (x : ℚ) :
    squaredDeviations (xs ++ [x]) =
      squaredDeviations xs + (x - average xs) * (x - average (xs ++ [x])) := by
  have hmoved := sum_squares_sub xs (average (xs ++ [x]))
  have hway := length_mul_average_sub_concat xs x
  rw [squaredDeviations, List.map_append, List.sum_append, hmoved, List.map_singleton,
    List.sum_singleton]
  linear_combination (average xs - average (xs ++ [x])) * hway

/-! ### The pass -/

theorem ofSamples_concat {α : Type} [Scalar α] (xs : List α) (x : α) :
    Moments.ofSamples (xs ++ [x]) = (Moments.ofSamples xs).add x := by
  rw [Moments.ofSamples, List.foldl_concat, Moments.ofSamples]

section

variable [OpenFunctions]

/-- **The pass ends with the sum of the squared deviations from the average.** -/
theorem squares_moments (xs : List ℚ) : (Moments.ofSamples xs).squares = squaredDeviations xs := by
  induction xs using List.reverseRecOn with
  | nil => exact zero_eq
  | append_singleton xs x ih =>
      have hmean := mean_moments (xs ++ [x])
      rw [ofSamples_concat] at hmean ⊢
      show (Moments.ofSamples xs).squares +
        (x - (Moments.ofSamples xs).mean) * (x - ((Moments.ofSamples xs).add x).mean) = _
      rw [ih, hmean, mean_moments, squaredDeviations_concat]

/-- **Nothing is left for the clamp to do.** -/
theorem variance_moments (xs : List ℚ) :
    (Moments.ofSamples xs).variance = populationVariance xs := by
  have hvariance : (Moments.ofSamples xs).variance =
      if 0 < populationVariance xs then populationVariance xs else 0 := by
    simp only [Moments.variance, count_moments, squares_moments, zero_eq]
    rfl
  rw [hvariance]
  split
  · rfl
  · rename_i hpos
    exact (le_antisymm (not_lt.mp hpos) (populationVariance_nonneg xs)).symm

theorem stdDev_eq_sqrt {xs : List ℚ} (h : xs ≠ []) :
    stdDev xs = some (Scalar.sqrt (populationVariance xs)) := by
  rw [stdDev, List.isEmpty_eq_false_iff.mpr h, variance_moments]
  rfl

end

/-! ### Real roots -/

/-- The one function that real arithmetic leaves open. -/
class OpenDistribution where
  normalCdf : ℝ → ℝ

section

variable [OpenDistribution]

/-- Exact arithmetic with the roots in it. -/
noncomputable instance : Scalar ℝ where
  decLt := inferInstance
  decLe := inferInstance
  beq x y := decide (x = y)
  totalLe x y := decide (x ≤ y)
  isFinite _ := true
  abs x := |x|
  sqrt := Real.sqrt
  normalCdf := OpenDistribution.normalCdf
  floorNat x := ⌊x⌋₊
  ceilNat x := ⌈x⌉₊

/-- Moments over other numbers. -/
def Moments.map {α β : Type} (f : α → β) (m : Moments α) : Moments β :=
  ⟨m.count, f m.mean, f m.squares⟩

variable [OpenFunctions]

theorem Moments.add_cast (m : Moments ℚ) (x : ℚ) :
    (m.map (Rat.cast : ℚ → ℝ)).add (x : ℝ) = (m.add x).map Rat.cast := by
  simp only [Moments.add, Moments.map, Rat.cast_add, Rat.cast_sub, Rat.cast_mul, Rat.cast_div,
    Rat.cast_natCast]

/-- **Rational samples take the pass over the real numbers through the same moments.** -/
theorem moments_cast (xs : List ℚ) :
    Moments.ofSamples (xs.map (Rat.cast : ℚ → ℝ)) = (Moments.ofSamples xs).map Rat.cast := by
  induction xs using List.reverseRecOn with
  | nil =>
      have hzero : ((zero : ℚ) : ℝ) = zero := Rat.cast_natCast 0
      show Moments.start = Moments.map Rat.cast Moments.start
      rw [Moments.map, Moments.start, Moments.start, hzero]
  | append_singleton xs x ih =>
      rw [List.map_append, List.map_singleton, ofSamples_concat, ih, Moments.add_cast,
        ofSamples_concat]

theorem Moments.variance_cast (m : Moments ℚ) :
    (m.map (Rat.cast : ℚ → ℝ)).variance = (m.variance : ℝ) := by
  have hzero : ((zero : ℚ) : ℝ) = zero := Rat.cast_natCast 0
  have hquotient : (m.squares : ℝ) / (m.count : ℝ) = ((m.squares / m.count : ℚ) : ℝ) := by
    rw [Rat.cast_div, Rat.cast_natCast]
  simp only [Moments.variance, Moments.map, hquotient, ← hzero, Rat.cast_lt, apply_ite Rat.cast]

/-- The root that is reported for rational samples. -/
theorem stdDev_cast {xs : List ℚ} (h : xs ≠ []) :
    stdDev (xs.map (Rat.cast : ℚ → ℝ)) = some √(populationVariance xs : ℝ) := by
  rw [stdDev, List.isEmpty_eq_false_iff.mpr (mt List.map_eq_nil_iff.mp h), moments_cast,
    Moments.variance_cast, variance_moments]
  rfl

/-- What one pass over samples ends with, against the sums that define it. -/
structure PassIsTwoPass (xs : List ℚ) : Prop where
  mean : (Moments.ofSamples xs).mean = xs.sum / xs.length
  squares : (Moments.ofSamples xs).squares =
    (xs.map fun x => (x - xs.sum / xs.length) ^ 2).sum
  squares_nonneg : 0 ≤ (Moments.ofSamples xs).squares
  /-- The variance is the quotient, with nothing clamped. -/
  unclamped : (Moments.ofSamples xs).variance =
    (Moments.ofSamples xs).squares / (Moments.ofSamples xs).count
  /-- Whatever function takes the root, it is given the population variance. -/
  root : stdDev xs = some (Scalar.sqrt (populationVariance xs))
  /-- With real roots the reported deviation squares to the population variance. -/
  deviation : ∃ sd : ℝ, stdDev (xs.map (Rat.cast : ℚ → ℝ)) = some sd ∧ 0 ≤ sd ∧
    sd ^ 2 = (populationVariance xs : ℝ) ∧ (sd = 0 ↔ ∀ x ∈ xs, ∀ y ∈ xs, x = y)

/--
**One pass over samples ends with the mean and the squares of two.**

The sum of the squared deviations from the mean is never negative, so that the
variance is not clamped; the deviation is its root, and zero for samples that are
all the same and for no others.
-/
theorem moments_twoPass (xs : List ℚ) (h : xs ≠ []) : PassIsTwoPass xs := by
  refine ⟨mean_moments xs, squares_moments xs, ?_, ?_, stdDev_eq_sqrt h, ?_⟩
  · rw [squares_moments]
    exact squaredDeviations_nonneg xs
  · rw [variance_moments, squares_moments, count_moments, populationVariance]
  · have hnonneg : (0 : ℝ) ≤ (populationVariance xs : ℝ) :=
      Rat.cast_nonneg.mpr (populationVariance_nonneg xs)
    refine ⟨_, stdDev_cast h, Real.sqrt_nonneg _, Real.sq_sqrt hnonneg, ?_⟩
    rw [Real.sqrt_eq_zero hnonneg, Rat.cast_eq_zero, populationVariance_eq_zero_iff h]

end

/-- Samples whose variance, two thirds, has no rational root. -/
def threeSteps : List ℚ := [1, 2, 3]

theorem moments_twoPass_threeSteps :
    letI := OpenFunctions.rational
    letI : OpenDistribution := ⟨fun x => x⟩
    threeSteps ≠ [] ∧ PassIsTwoPass threeSteps ∧ populationVariance threeSteps = 2 / 3 := by
  let _ : OpenFunctions := OpenFunctions.rational
  let _ : OpenDistribution := ⟨fun x => x⟩
  have hne : threeSteps ≠ [] := List.cons_ne_nil _ _
  exact ⟨hne, moments_twoPass threeSteps hne, by decide +kernel⟩

end RunCompare.Stats
