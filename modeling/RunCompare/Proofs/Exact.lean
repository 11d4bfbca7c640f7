/-
Exact arithmetic.

The rationals are the numbers in which the algebra of the statistics is stated.
Their arithmetic does not round and every value is finite.  Two functions do not
stay inside the rationals, the square root and the normal distribution function;
`OpenFunctions` supplies them, and nothing is ever assumed about either.
-/
import RunCompare.Scalar
import Mathlib.Algebra.BigOperators.Group.List.Basic
import Mathlib.Algebra.Order.Floor.Semiring
import Mathlib.Data.Rat.Floor
import Mathlib.Data.Rat.Sqrt
import Mathlib.Tactic.Linarith
import Mathlib.Tactic.Ring

namespace RunCompare

/-- The functions that exact arithmetic leaves open. -/
class OpenFunctions where
  sqrt : ℚ → ℚ
  normalCdf : ℚ → ℚ

/-- A square root that is right at the squares of rationals, and a rational curve between zero and
one that passes zero halfway. -/
@[reducible] def OpenFunctions.rational : OpenFunctions where
  sqrt := Rat.sqrt
  normalCdf x := (1 + x / (1 + |x|)) / 2

variable [OpenFunctions]

instance : Scalar ℚ where
  decLt := inferInstance
  decLe := inferInstance
  totalLe x y := decide (x ≤ y)
  isFinite _ := true
  abs x := |x|
  sqrt := OpenFunctions.sqrt
  normalCdf := OpenFunctions.normalCdf
  floorNat x := ⌊x⌋₊
  ceilNat x := ⌈x⌉₊

namespace Scalar

@[simp] theorem zero_eq : (zero : ℚ) = 0 := Nat.cast_zero

@[simp] theorem one_eq : (one : ℚ) = 1 := Nat.cast_one

@[simp] theorem isFinite_eq (x : ℚ) : isFinite x = true := rfl

@[simp] theorem totalLe_iff {x y : ℚ} : totalLe x y = true ↔ x ≤ y := decide_eq_true_iff

theorem totalLe_trans (x y z : ℚ) (hxy : totalLe x y = true) (hyz : totalLe y z = true) :
    totalLe x z = true :=
  totalLe_iff.mpr (le_trans (totalLe_iff.mp hxy) (totalLe_iff.mp hyz))

theorem totalLe_total (x y : ℚ) : (totalLe x y || totalLe y x) = true := by
  rw [Bool.or_eq_true, totalLe_iff, totalLe_iff]
  exact le_total x y

/-- Adding up in order from minus zero is the sum. -/
@[simp] theorem sum_eq (xs : List ℚ) : sum xs = xs.sum := by
  have general : ∀ a : ℚ, xs.foldl (· + ·) a = a + xs.sum := by
    induction xs with
    | nil =>
        intro a
        simp
    | cons x rest ih =>
        intro a
        rw [List.foldl_cons, ih, List.sum_cons]
        ring
  unfold sum
  rw [general]
  simp

end Scalar

end RunCompare
