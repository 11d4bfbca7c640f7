/-
The ranks of the quartiles are positions of samples.

A quartile lies at a quarter, a half or three quarters of the greatest position,
and is read at the whole numbers next to it.  In exact arithmetic the upper of
them is a position at once.  The processor rounds the greatest position and the
product, each of which adds at most an eighth, and nine eighths of nine eighths
of three quarters is still less than one.  The hundredth percentile has no such
margin: the position itself could be rounded up, but it is never asked for.
-/
import RunCompare.Stats.Outlier
import RunCompare.Proofs.Binary64.Product
import RunCompare.Proofs.Stats.Summary

namespace RunCompare

open Scalar

/-- The percentiles that are asked for. -/
def Stats.quartiles : List Nat := [25, 50, 75]

namespace Binary64

theorem floorNat_le_ceilNat (x : Binary64) : floorNat x ≤ ceilNat x := by
  unfold floorNat ceilNat
  split
  · exact Nat.le_refl 0
  · exact Nat.div_le_div_right (Nat.le_add_right _ _)

/-- A number of units that a whole number covers has a ceiling that it covers. -/
theorem ceilNat_le {x : Binary64} {n : Nat}
    (h : x.isFinite = true → x.units ≤ n * unitsInOne) : ceilNat x ≤ n := by
  unfold ceilNat
  split
  · exact Nat.zero_le n
  · rename_i hcond
    have hfinite : x.isFinite = true := by
      cases hx : x.isFinite with
      | true => rfl
      | false => simp [hx] at hcond
    refine Nat.le_of_lt_succ ((Nat.div_lt_iff_lt_mul unitsInOne_pos).mpr ?_)
    have hunits := h hfinite
    have hpos := unitsInOne_pos
    rw [Nat.succ_mul]
    omega

/-- A natural number that is not finite has been rounded to infinity. -/
theorem ofNat_eq_infinity {n : Nat} (h : (ofNat n).isFinite ≠ true) : ofNat n = infinity := by
  have hle : magnitudeOfRatio n 1 ≤ infinityMagnitude := Nat.min_le_right _ _
  have hmag : (ofNat n).magnitude = magnitudeOfRatio n 1 :=
    magnitude_ofParts (Nat.lt_of_le_of_lt hle (by decide))
  have hge : infinityMagnitude ≤ magnitudeOfRatio n 1 := by
    rw [← hmag]
    exact Nat.not_lt.mp fun hlt => h (decide_eq_true hlt)
  exact congrArg (ofParts false) (Nat.le_antisymm hle hge)

/-- A factor of at most three quarters that is not tiny. -/
@[mk_iff] structure Fraction (c : Binary64) : Prop where
  finite : c.isFinite = true
  unsigned : c.isNegative = false
  full : fractionCount ≤ c.significand
  exponent_ge : 52 ≤ c.exponent
  exponent_le : c.exponent ≤ 1024
  /-- At most three quarters. -/
  units : 4 * c.units ≤ 3 * unitsInOne
  /-- No part of infinity is finite. -/
  infinity : (c * Binary64.infinity).isFinite = false

instance (c : Binary64) : Decidable (Fraction c) := decidable_of_iff _ (fraction_iff c).symm

/-- **A fraction of a natural number, rounded twice, does not pass the number.** -/
theorem Fraction.ceilNat_mul_le {c : Binary64} (h : Fraction c) {n : Nat} (hn : 0 < n) :
    ceilNat (c * ofNat n) ≤ n := by
  refine ceilNat_le fun hfinite => ?_
  have hnat : (ofNat n).isFinite = true := by
    refine Classical.byContradiction fun hinf => ?_
    rw [ofNat_eq_infinity hinf, h.infinity] at hfinite
    exact Bool.noConfusion hfinite
  obtain ⟨hnatle, hfull, hexp⟩ := ofNat_units_le hn hnat
  have hmul := mul_units_le h.finite hnat h.unsigned (isNegative_ofNat n) h.full hfull
    (Nat.add_le_add h.exponent_ge hexp) hfinite
  refine Nat.le_of_mul_le_mul_right ?_ unitsInOne_pos
  -- Nine eighths of three quarters of nine eighths: 243 in 256.
  have hle : 256 * ((c * ofNat n).units * unitsInOne) ≤ 243 * (n * unitsInOne * unitsInOne) := by
    calc 256 * ((c * ofNat n).units * unitsInOne)
        = 32 * (8 * ((c * ofNat n).units * unitsInOne)) := by ring
      _ ≤ 32 * (9 * (c.units * (ofNat n).units)) := Nat.mul_le_mul_left _ hmul
      _ = 72 * (4 * c.units * (ofNat n).units) := by ring
      _ ≤ 72 * (3 * unitsInOne * (ofNat n).units) :=
          Nat.mul_le_mul_left _ (Nat.mul_le_mul_right _ h.units)
      _ = 27 * unitsInOne * (8 * (ofNat n).units) := by ring
      _ ≤ 27 * unitsInOne * (9 * (n * unitsInOne)) := Nat.mul_le_mul_left _ hnatle
      _ = 243 * (n * unitsInOne * unitsInOne) := by ring
  omega

/-- A fraction of a number that a machine can count to is a number, and not below zero. -/
theorem Fraction.mul_isFinite {c : Binary64} (h : Fraction c) {n : Nat} (hn : 0 < n)
    (hlt : n < 2 ^ 64) : (c * ofNat n).isFinite = true ∧ (c * ofNat n).isNegative = false := by
  obtain ⟨hnat, hle⟩ := ofNat_isFinite hn hlt
  obtain ⟨-, hfull, hexp⟩ := ofNat_units_le hn hnat
  have hge := h.exponent_ge
  have hle' := h.exponent_le
  exact Binary64.mul_isFinite h.finite hnat h.unsigned (isNegative_ofNat n) h.full hfull
    (by omega) (by omega)

/-- The quartiles are fractions. -/
theorem fraction_quartile {p : Nat} (hp : p ∈ Stats.quartiles) :
    Fraction (((p : Nat) : Binary64) / ((100 : Nat) : Binary64)) := by
  have hall : ∀ p ∈ Stats.quartiles, Fraction (((p : Nat) : Binary64) / ((100 : Nat) : Binary64)) := by
    decide +kernel
  exact hall p hp

end Binary64

namespace Stats

open Binary64

variable {p : Nat}

/-- **Both ranks of a quartile are positions of samples.** -/
theorem percentileRank_lt {n : Nat} (hn : 2 ≤ n) (hp : p ∈ quartiles) :
    Scalar.floorNat (percentileRank n (p : Binary64)) < n ∧
      Scalar.ceilNat (percentileRank n (p : Binary64)) < n := by
  have hceil : Scalar.ceilNat (percentileRank n (p : Binary64)) ≤ n - 1 :=
    (fraction_quartile hp).ceilNat_mul_le (Nat.sub_pos_of_lt hn)
  have hlt : Scalar.ceilNat (percentileRank n (p : Binary64)) < n := by omega
  exact ⟨Nat.lt_of_le_of_lt (floorNat_le_ceilNat _) hlt, hlt⟩

/-- The rank of a quartile is a number that is not below zero, so that its whole part is one. -/
theorem percentileRank_isFinite {n : Nat} (hn : 2 ≤ n) (hlt : n < 2 ^ 64) (hp : p ∈ quartiles) :
    (percentileRank n (p : Binary64)).isFinite = true ∧
      (percentileRank n (p : Binary64)).isNegative = false :=
  (fraction_quartile hp).mul_isFinite (Nat.sub_pos_of_lt hn) (by omega)

theorem isPercentage_quartile (hp : p ∈ quartiles) : isPercentage (p : Binary64) = true := by
  have hbounds : ∀ p ∈ quartiles, isPercentage ((p : Nat) : Binary64) = true := by
    decide +kernel
  exact hbounds p hp

theorem atRank_isSome {xs : List Binary64} {rank : Binary64}
    (hlower : Scalar.floorNat rank < xs.length) (hupper : Scalar.ceilNat rank < xs.length) :
    (atRank xs rank).isSome = true := by
  simp only [atRank]
  split
  · simpa using hlower
  · simp [List.getElem?_eq_getElem hlower, List.getElem?_eq_getElem hupper]

/-- **Every series but the empty one has quartiles.** -/
theorem percentileOfSorted_isSome {xs : List Binary64} (hp : p ∈ quartiles) (hxs : xs ≠ []) :
    (percentileOfSorted xs (p : Binary64)).isSome = true := by
  unfold percentileOfSorted
  rw [isPercentage_quartile hp, if_neg (by decide)]
  match xs, hxs with
  | [x], _ => rfl
  | x :: y :: rest, _ =>
      obtain ⟨hlower, hupper⟩ := percentileRank_lt (n := (x :: y :: rest).length)
        (Nat.le_add_left 2 rest.length) hp
      exact atRank_isSome hlower hupper

/-- **Only for the empty series there are no fences.** -/
theorem Outliers.detect_isSome {xs : List Binary64} (hxs : xs ≠ []) :
    (Outliers.detect xs).isSome = true := by
  have hsorted := sorted_ne_nil hxs
  simp only [Outliers.detect]
  split
  · simp [List.head?_eq_some_head hsorted, List.getLast?_eq_some_getLast hsorted]
  · obtain ⟨q1, hq1⟩ := Option.isSome_iff_exists.mp
      (percentileOfSorted_isSome (p := 25) (by decide) hsorted)
    obtain ⟨q3, hq3⟩ := Option.isSome_iff_exists.mp
      (percentileOfSorted_isSome (p := 75) (by decide) hsorted)
    simp only [lowerQuartile, upperQuartile, hq1, hq3]
    rfl

end Stats

end RunCompare
