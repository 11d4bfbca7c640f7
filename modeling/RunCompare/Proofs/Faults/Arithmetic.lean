/-
Exact arithmetic in which a fault shows.

A quotient by zero and the square root of a negative number have no value.
`PartialRat` is the rationals with one value more, `undefined`, which every
operation hands on; `Faults` says what the two faulty operations give, be it a
number or `undefined`; and `Choices` says how a test comes out that has an
undefined operand.  A computation in which no operation is faulty is one whose
result does not depend on the faults, whatever the choices.
-/
import RunCompare.Scalar
import RunCompare.Stats.Normal
import Mathlib.Algebra.Order.Floor.Semiring
import Mathlib.Data.Rat.Floor
import Mathlib.Tactic.Linarith
import Mathlib.Tactic.Positivity

namespace RunCompare

/-- A rational number, or none. -/
inductive PartialRat where
  | num (q : ℚ)
  | undefined

namespace PartialRat

/-- What exact arithmetic leaves open: the functions that leave the rationals, and the outcomes of
tests with an undefined operand. -/
structure Choices where
  sqrt : ℚ → ℚ
  exp : ℚ → ℚ
  lt : PartialRat → PartialRat → Bool
  le : PartialRat → PartialRat → Bool
  beq : PartialRat → PartialRat → Bool
  totalLe : PartialRat → PartialRat → Bool
  isFinite : Bool
  floorNat : Nat
  ceilNat : Nat

/-- What the faulty operations give. -/
structure Faults where
  /-- The quotient of a number by zero. -/
  quotient : ℚ → PartialRat
  /-- The square root of a number below zero. -/
  root : ℚ → PartialRat

/-! ### Operations -/

/-- A function of one number. -/
def map (f : ℚ → ℚ) : PartialRat → PartialRat
  | num q => num (f q)
  | undefined => undefined

/-- A function of two numbers. -/
def map₂ (f : ℚ → ℚ → ℚ) : PartialRat → PartialRat → PartialRat
  | num p, num q => num (f p q)
  | _, _ => undefined

/-- A quotient; a fault by zero. -/
def quotient (faults : Faults) : PartialRat → PartialRat → PartialRat
  | num p, num q => if q = 0 then faults.quotient p else num (p / q)
  | _, _ => undefined

/-- A square root; a fault below zero. -/
def root (choices : Choices) (faults : Faults) : PartialRat → PartialRat
  | num q => if q < 0 then faults.root q else num (choices.sqrt q)
  | undefined => undefined

/-- A test of two numbers, with the outcomes for other operands. -/
def test (p : ℚ → ℚ → Bool) (other : PartialRat → PartialRat → Bool) :
    PartialRat → PartialRat → Bool
  | num a, num b => p a b
  | x, y => other x y

/-- A conversion of a number, with the outcome for the other operand. -/
def convert {β : Type} (f : ℚ → β) (other : β) : PartialRat → β
  | num q => f q
  | undefined => other

/-- The functions of the normal distribution; its constants are exact. -/
def normalFunctions (choices : Choices) : Stats.NormalFunctions PartialRat where
  abs := map (|·|)
  exp := map choices.exp
  sqrtTwo := num (6369051672525773 / 4503599627370496)
  ofRatio negative n d := num (if negative then -(n / d) else n / d)

/-- The weak order. -/
def leb (choices : Choices) : PartialRat → PartialRat → Bool :=
  test (fun p q => decide (p ≤ q)) choices.le

/-- The strict order. -/
def ltb (choices : Choices) : PartialRat → PartialRat → Bool :=
  test (fun p q => decide (p < q)) choices.lt

instance : Add PartialRat := ⟨map₂ (· + ·)⟩
instance : Sub PartialRat := ⟨map₂ (· - ·)⟩
instance : Mul PartialRat := ⟨map₂ (· * ·)⟩
instance : Neg PartialRat := ⟨map (-·)⟩
instance : NatCast PartialRat := ⟨fun n => num n⟩

/-- The distribution function of the standard normal distribution. -/
def normalCdf (choices : Choices) (faults : Faults) : PartialRat → PartialRat :=
  letI : Div PartialRat := ⟨quotient faults⟩
  letI : LE PartialRat := ⟨fun x y => leb choices x y = true⟩
  letI : DecidableLE PartialRat := fun _ _ => inferInstanceAs (Decidable (_ = true))
  (normalFunctions choices).cdf

/-- The exact numbers, with given faults. -/
@[reducible] def scalar (choices : Choices) (faults : Faults) : Scalar PartialRat where
  div := quotient faults
  lt x y := ltb choices x y = true
  le x y := leb choices x y = true
  beq := test (· == ·) choices.beq
  decLt _ _ := inferInstanceAs (Decidable (_ = true))
  decLe _ _ := inferInstanceAs (Decidable (_ = true))
  totalLe := test (fun p q => decide (p ≤ q)) choices.totalLe
  isFinite := convert (fun _ => true) choices.isFinite
  abs := map (|·|)
  sqrt := root choices faults
  normalCdf := normalCdf choices faults
  floorNat := convert Nat.floor choices.floorNat
  ceilNat := convert Nat.ceil choices.ceilNat

/-! ### Operations without a fault -/

variable {c : Choices} {f o : Faults}

/-- A divisor other than zero makes no fault. -/
theorem div_eq (x : PartialRat) {y : PartialRat} (h : y ≠ num 0) :
    @HDiv.hDiv _ _ _ (@instHDiv _ (scalar c f).toDiv) x y =
      @HDiv.hDiv _ _ _ (@instHDiv _ (scalar c o).toDiv) x y := by
  show quotient f x y = quotient o x y
  cases x with
  | undefined => rfl
  | num p =>
      cases y with
      | undefined => rfl
      | num q =>
          have hq : q ≠ 0 := fun hq => h (congrArg num hq)
          rw [quotient, quotient, if_neg hq, if_neg hq]

/-- A radicand that is no negative number makes no fault. -/
theorem sqrt_eq {x : PartialRat} (h : ∀ q, x = num q → 0 ≤ q) :
    (scalar c f).sqrt x = (scalar c o).sqrt x := by
  show root c f x = root c o x
  cases x with
  | undefined => rfl
  | num q => rw [root, root, if_neg (not_lt.mpr (h q rfl)), if_neg (not_lt.mpr (h q rfl))]

theorem zero_eq : @Scalar.zero _ (scalar c f) = num 0 := congrArg num Nat.cast_zero

theorem zero_lt_num {q : ℚ} :
    @LT.lt _ (scalar c f).toLT (@Scalar.zero _ (scalar c f)) (num q) ↔ 0 < q := by
  rw [zero_eq]
  exact decide_eq_true_iff

theorem num_le_zero {q : ℚ} :
    @LE.le _ (scalar c f).toLE (num q) (@Scalar.zero _ (scalar c f)) ↔ q ≤ 0 := by
  rw [zero_eq]
  exact decide_eq_true_iff

section

variable {β : Type} (g : PartialRat → β) (x y : PartialRat) (z : β)

/-- A divisor that is tested to be above zero makes no fault. -/
theorem ite_pos_div_eq : (letI _ := scalar c f; if Scalar.zero < y then g (x / y) else z) =
    (letI _ := scalar c o; if Scalar.zero < y then g (x / y) else z) := by
  by_cases h : @LT.lt _ (scalar c f).toLT (@Scalar.zero _ (scalar c f)) y
  · have hy : y ≠ num 0 := by
      rintro rfl
      exact lt_irrefl 0 (zero_lt_num.mp h)
    exact (if_pos h).trans ((congrArg g (div_eq x hy)).trans (if_pos h).symm)
  · exact (if_neg h).trans (if_neg h).symm

/-- A divisor that is tested not to be zero makes no fault. -/
theorem ite_zero_div_eq : (letI _ := scalar c f; if y == Scalar.zero then z else g (x / y)) =
    (letI _ := scalar c o; if y == Scalar.zero then z else g (x / y)) := by
  by_cases h : (@BEq.beq _ (scalar c f).toBEq y (@Scalar.zero _ (scalar c f))) = true
  · exact (if_pos h).trans (if_pos h).symm
  · have hy : y ≠ num 0 := by
      rintro rfl
      rw [zero_eq] at h
      exact h (beq_self_eq_true (0 : ℚ))
    exact (if_neg h).trans ((congrArg g (div_eq x hy)).trans (if_neg h).symm)

end

theorem natCast_ne_zero {n : Nat} (h : n ≠ 0) : ((n : Nat) : PartialRat) ≠ num 0 := by
  intro heq
  exact h (Nat.cast_eq_zero.mp (num.inj heq))

end PartialRat

end RunCompare
