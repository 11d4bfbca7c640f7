/-
The numeric order, next to zero and one and along the total order.

Where a value lies is a matter of its sign and its magnitude.  The total order also
tells the zeros apart and ranks what is not a number, but it never ranks two values
against their numeric order.
-/
import RunCompare.Binary64.Scalar

namespace RunCompare.Binary64

open Scalar

variable {x y : Binary64}

theorem lt_iff : x < y ↔ x.isNaN = false ∧ y.isNaN = false ∧ x.numericKey < y.numericKey := by
  show x.ltb y = true ↔ _
  simp [ltb, and_assoc]

theorem le_iff : x ≤ y ↔ x.isNaN = false ∧ y.isNaN = false ∧ x.numericKey ≤ y.numericKey := by
  show x.leb y = true ↔ _
  simp [leb, and_assoc]

theorem eq_iff : (x == y) = true ↔
    x.isNaN = false ∧ y.isNaN = false ∧ x.numericKey = y.numericKey := by
  show x.eqb y = true ↔ _
  simp [eqb, and_assoc]

/-- Numeric equality is symmetric and transitive, but a value that is not a number does not
equal itself. -/
instance : PartialEquivBEq Binary64 where
  symm h := by
    obtain ⟨hx, hy, hkey⟩ := eq_iff.mp h
    exact eq_iff.mpr ⟨hy, hx, hkey.symm⟩
  trans h h' := by
    obtain ⟨hx, -, hkey⟩ := eq_iff.mp h
    obtain ⟨-, hz, hkey'⟩ := eq_iff.mp h'
    exact eq_iff.mpr ⟨hx, hz, hkey.trans hkey'⟩

theorem lt_asymm (h : x < y) : ¬ y < x := by
  intro h'
  exact Int.lt_asymm (lt_iff.mp h).2.2 (lt_iff.mp h').2.2

theorem not_le_of_lt (h : x < y) : ¬ y ≤ x := by
  intro hle
  exact Int.not_le.mpr (lt_iff.mp h).2.2 (le_iff.mp hle).2.2

theorem isNaN_of_isFinite (h : x.isFinite = true) : x.isNaN = false :=
  decide_eq_false (Nat.not_lt.mpr (Nat.le_of_lt (of_decide_eq_true h)))

theorem zero_key : (zero : Binary64).isNaN = false ∧ (zero : Binary64).numericKey = 0 := by decide

/-- The pattern of one: no fraction, and the exponent in the middle. -/
theorem one_eq : (one : Binary64) = ofParts false (1023 * fractionCount) := by decide +kernel

theorem one_key : (one : Binary64).isNaN = false ∧
    (one : Binary64).numericKey = 1023 * fractionCount := by
  rw [one_eq]
  decide

theorem zero_lt_iff : (zero : Binary64) < x ↔
    x.isNaN = false ∧ x.isNegative = false ∧ 0 < x.magnitude := by
  rw [lt_iff, zero_key.2, numericKey]
  cases x.isNegative with
  | true => simp [zero_key.1]
  | false => simp [zero_key.1]

theorem lt_zero_iff : x < (zero : Binary64) ↔
    x.isNaN = false ∧ x.isNegative = true ∧ 0 < x.magnitude := by
  rw [lt_iff, zero_key.2, numericKey]
  cases x.isNegative with
  | true => simp [zero_key.1]
  | false => simp [zero_key.1]

/-- A finite value that is not at most zero is above it. -/
theorem zero_lt_of_not_le (hx : x.isFinite = true) (h : ¬ x ≤ (zero : Binary64)) :
    (zero : Binary64) < x := by
  refine lt_iff.mpr ⟨zero_key.1, isNaN_of_isFinite hx, ?_⟩
  refine Int.not_le.mp fun hle => h (le_iff.mpr ⟨isNaN_of_isFinite hx, zero_key.1, hle⟩)

/-- A number that is not below one is above zero. -/
theorem zero_lt_of_not_lt_one (hx : x.isNaN = false) (h : ¬ x < (one : Binary64)) :
    (zero : Binary64) < x := by
  refine lt_iff.mpr ⟨zero_key.1, hx, ?_⟩
  have hle : (one : Binary64).numericKey ≤ x.numericKey :=
    Int.not_lt.mp fun hlt => h (lt_iff.mpr ⟨hx, one_key.1, hlt⟩)
  rw [one_key.2, fractionCount] at hle
  rw [zero_key.2]
  omega

/-! ### The total order -/

theorem totalLe_iff : Scalar.totalLe x y = true ↔ x.totalKey ≤ y.totalKey := decide_eq_true_iff

theorem totalLe_trans (x y z : Binary64) (hxy : Scalar.totalLe x y = true)
    (hyz : Scalar.totalLe y z = true) : Scalar.totalLe x z = true :=
  totalLe_iff.mpr (Int.le_trans (totalLe_iff.mp hxy) (totalLe_iff.mp hyz))

theorem totalLe_total (x y : Binary64) : (Scalar.totalLe x y || Scalar.totalLe y x) = true := by
  rw [Bool.or_eq_true, totalLe_iff, totalLe_iff]
  exact Int.le_total _ _

/-- Two values are never ranked against their numeric order. -/
theorem numericKey_le_of_totalLe (h : Scalar.totalLe x y = true) : x.numericKey ≤ y.numericKey := by
  have hkey := totalLe_iff.mp h
  unfold totalKey at hkey
  unfold numericKey
  cases hx : x.isNegative with
  | true =>
      cases hy : y.isNegative with
      | true => simp only [hx, hy, if_true] at hkey ⊢; omega
      | false => simp only [if_true, Bool.false_eq_true, if_false]; omega
  | false =>
      cases hy : y.isNegative with
      | true => simp only [hx, hy, if_true, Bool.false_eq_true, if_false] at hkey ⊢; omega
      | false => simp only [hx, hy, Bool.false_eq_true, if_false] at hkey ⊢; omega

end RunCompare.Binary64
