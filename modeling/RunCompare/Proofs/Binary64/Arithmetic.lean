/-
The program's numbers with any arithmetic.

What a result owes to comparing its samples, and what to computing with them, is
told apart by leaving the computing open.  An `Arithmetic` is the operations that
round, of which nothing is assumed; `Arithmetic.scalar` is the 64-bit numbers with
these operations and with the program's own comparisons and conversions.  A law
for every arithmetic holds however the operations round, and of the processor's
in particular.

The total order is linear on bit patterns: two that it ranks level are the same
pattern, the zeros and the values that are not numbers included.  There is thus
one way to sort a series, whatever is computed from it afterwards.
-/
import RunCompare.Proofs.Binary64.Order
import RunCompare.Proofs.Stats.Reordering

namespace RunCompare.Binary64

/-- **A pattern is told by its place in the total order.** -/
theorem totalKey_injective : Function.Injective totalKey := by
  intro x y h
  have hx : x.bits.toNat < 2 ^ 64 := x.bits.toNat_lt
  have hy : y.bits.toNat < 2 ^ 64 := y.bits.toNat_lt
  unfold totalKey magnitude isNegative signWeight at h
  have hbits : x.bits.toNat = y.bits.toNat := by
    by_cases hneg : 0x8000000000000000 ≤ x.bits.toNat
    · rw [decide_eq_true hneg, if_pos rfl] at h
      by_cases hneg' : 0x8000000000000000 ≤ y.bits.toNat
      · rw [decide_eq_true hneg', if_pos rfl] at h
        omega
      · rw [decide_eq_false hneg', if_neg Bool.false_ne_true] at h
        omega
    · rw [decide_eq_false hneg, if_neg Bool.false_ne_true] at h
      by_cases hneg' : 0x8000000000000000 ≤ y.bits.toNat
      · rw [decide_eq_true hneg', if_pos rfl] at h
        omega
      · rw [decide_eq_false hneg', if_neg Bool.false_ne_true] at h
        omega
  cases x
  cases y
  exact congrArg mk (UInt64.toNat_inj.mp hbits)

/-- The operations that round. -/
structure Arithmetic where
  add : Binary64 → Binary64 → Binary64
  sub : Binary64 → Binary64 → Binary64
  mul : Binary64 → Binary64 → Binary64
  div : Binary64 → Binary64 → Binary64
  sqrt : Binary64 → Binary64
  normalCdf : Binary64 → Binary64

namespace Arithmetic

/-- The program's numbers with other operations. -/
@[reducible] def scalar (a : Arithmetic) : Scalar Binary64 :=
  { (inferInstance : Scalar Binary64) with
    add := a.add
    sub := a.sub
    mul := a.mul
    div := a.div
    sqrt := a.sqrt
    normalCdf := a.normalCdf }

/-- The processor's operations. -/
def processor : Arithmetic where
  add := Binary64.add
  sub := Binary64.sub
  mul := Binary64.mul
  div := Binary64.div
  sqrt := Binary64.sqrt
  normalCdf := Binary64.normalCdf

-- With these the numbers are those of the program.
example : processor.scalar = (inferInstance : Scalar Binary64) := rfl

/-- **Whatever the arithmetic, patterns are ranked level only if they are the same.** -/
instance (a : Arithmetic) : @Stats.LinearlyRanked Binary64 a.scalar :=
  letI := a.scalar
  { trans := totalLe_trans
    total := totalLe_total
    antisymm := fun _ _ hxy hyx =>
      totalKey_injective (Int.le_antisymm (totalLe_iff.mp hxy) (totalLe_iff.mp hyx)) }

end Arithmetic

end RunCompare.Binary64
