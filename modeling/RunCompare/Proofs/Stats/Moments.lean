/-
The mean that a running pass ends with.

The pass moves its mean by a share of each deviation and never adds the samples
up.  In exact arithmetic the mean times the count is nevertheless the sum of the
samples seen so far (`Moments.total_add`), so the pass ends with the sum over the
number of samples, and the deviations from it cancel.  Their squares do not, unless
nothing deviates.
-/
import RunCompare.Proofs.Exact
import RunCompare.Proofs.Stats.Summary
import Mathlib.Algebra.BigOperators.Ring.List
import Mathlib.Algebra.Order.BigOperators.Group.List

namespace RunCompare.Stats

open Scalar

/-! ### The average -/

/-- The sum of samples over their number. -/
def average (xs : List ℚ) : ℚ := xs.sum / xs.length

theorem cast_length_ne_zero {xs : List ℚ} (h : xs ≠ []) : (xs.length : ℚ) ≠ 0 :=
  Nat.cast_ne_zero.mpr (List.length_pos_of_ne_nil h).ne'

theorem length_mul_average {xs : List ℚ} (h : xs ≠ []) : xs.length * average xs = xs.sum :=
  mul_div_cancel₀ _ (cast_length_ne_zero h)

/-- **Deviations from the average cancel.** -/
theorem sum_sub_average {xs : List ℚ} (h : xs ≠ []) : (xs.map fun x => x - average xs).sum = 0 := by
  have hsum : ∀ c : ℚ, (xs.map fun x => x - c).sum = xs.sum - xs.length * c := by
    intro c
    simp only [sub_eq_add_neg, List.sum_map_add, List.map_id', List.map_const', List.sum_replicate,
      nsmul_eq_mul, mul_neg]
  rw [hsum, length_mul_average h, sub_self]

/-- The average of values that are all the same. -/
theorem average_map_of_forall {τ : Type} {f : τ → ℚ} {xs : List τ} {x : τ} (hx : x ∈ xs)
    (h : ∀ y ∈ xs, f y = f x) : average (xs.map f) = f x := by
  have hne : xs.map f ≠ [] := List.ne_nil_of_mem (List.mem_map_of_mem hx)
  have hsum : (xs.map f).sum = (xs.map f).length * f x := by
    rw [List.map_congr_left h, List.map_const', List.sum_replicate, List.length_replicate,
      nsmul_eq_mul]
  rw [average, hsum, mul_div_cancel_left₀ _ (cast_length_ne_zero hne)]

/-! ### Squared deviations -/

theorem sum_squares_nonneg {τ : Type} (f : τ → ℚ) (xs : List τ) :
    0 ≤ (xs.map fun x => f x ^ 2).sum := by
  refine List.sum_nonneg fun y hy => ?_
  obtain ⟨x, -, rfl⟩ := List.mem_map.mp hy
  exact sq_nonneg (f x)

/-- Squares add up to nothing only if there is nothing to square. -/
theorem sum_squares_eq_zero_iff {τ : Type} {f : τ → ℚ} {xs : List τ} :
    (xs.map fun x => f x ^ 2).sum = 0 ↔ ∀ x ∈ xs, f x = 0 := by
  induction xs with
  | nil => simp
  | cons x rest ih =>
      rw [List.map_cons, List.sum_cons, List.forall_mem_cons, ← ih,
        add_eq_zero_iff_of_nonneg (sq_nonneg (f x)) (sum_squares_nonneg f rest), sq_eq_zero_iff]

/-- The sum of the squared deviations from the average. -/
def squaredDeviations (xs : List ℚ) : ℚ := (xs.map fun x => (x - average xs) ^ 2).sum

theorem squaredDeviations_nonneg (xs : List ℚ) : 0 ≤ squaredDeviations xs :=
  sum_squares_nonneg _ xs

/-- Nothing deviates exactly if all values are the same. -/
theorem squaredDeviations_eq_zero_iff {xs : List ℚ} :
    squaredDeviations xs = 0 ↔ ∀ x ∈ xs, ∀ y ∈ xs, x = y := by
  simp only [squaredDeviations, sum_squares_eq_zero_iff, sub_eq_zero]
  constructor
  · intro h x hx y hy
    rw [h x hx, h y hy]
  · intro h x hx
    have haverage := average_map_of_forall hx fun y hy => h y hy x hx
    rw [List.map_id'] at haverage
    exact haverage.symm

/-! ### The pass -/

variable [OpenFunctions]

/-- The sum of the samples, as the moments have it. -/
def Moments.total (m : Moments ℚ) : ℚ := m.count * m.mean

/-- **One more sample adds itself to the sum.** -/
theorem Moments.total_add (m : Moments ℚ) (x : ℚ) : (m.add x).total = m.total + x := by
  have hcount : ((m.count + 1 : Nat) : ℚ) ≠ 0 := Nat.cast_ne_zero.mpr (Nat.succ_ne_zero _)
  show ((m.count + 1 : Nat) : ℚ) * (m.mean + (x - m.mean) / ((m.count + 1 : Nat) : ℚ)) =
    m.count * m.mean + x
  rw [mul_add, mul_div_cancel₀ _ hcount]
  push_cast
  ring

theorem total_moments (xs : List ℚ) : (Moments.ofSamples xs).total = xs.sum := by
  have run : ∀ m : Moments ℚ, (xs.foldl Moments.add m).total = m.total + xs.sum := by
    induction xs with
    | nil => intro m; exact (add_zero _).symm
    | cons x rest ih =>
        intro m
        rw [List.foldl_cons, ih, Moments.total_add, List.sum_cons, add_assoc]
  have hstart : (Moments.start : Moments ℚ).total = 0 := by
    show ((0 : Nat) : ℚ) * zero = 0
    rw [Nat.cast_zero, zero_mul]
  rw [Moments.ofSamples, run, hstart, zero_add]

/-- **The pass ends with the average**, which is zero without samples. -/
theorem mean_moments (xs : List ℚ) : (Moments.ofSamples xs).mean = average xs := by
  by_cases h : xs = []
  · subst h
    show zero = average []
    rw [zero_eq, average, List.sum_nil, zero_div]
  · rw [average, eq_div_iff (cast_length_ne_zero h), mul_comm, ← total_moments xs, Moments.total,
      count_moments]

/-- **The running mean of samples is their average.** -/
theorem mean_eq_average {xs : List ℚ} (h : xs ≠ []) : mean xs = some (average xs) := by
  rw [mean, List.isEmpty_eq_false_iff.mpr h, mean_moments]
  rfl

end RunCompare.Stats
