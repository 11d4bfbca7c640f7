/-
The signs of quotients.

Rounding never changes a sign, so a quotient of positive numbers is never below
zero, and never fails to be a number.  It may vanish, but the reciprocal of a
number below one cannot: `one_le_recip_magnitude` finds its significand full, which keeps
it away from zero however the last place is rounded.
-/
import RunCompare.Proofs.Binary64.Order
import RunCompare.Proofs.Binary64.Pattern

namespace RunCompare.Binary64

open Float.Model Float.Model.UnpackedFloat Scalar

/-! ### Rounding -/

theorem mantissa_shiftRight (em : ExtendedMantissa) (k : Nat) :
    (em >>> k).mantissa = em.mantissa >>> k := by
  induction k with
  | zero => rfl
  | succ k ih =>
      show (em >>> k).mantissa / 2 = em.mantissa >>> (k + 1)
      rw [ih]
      rfl

theorem mantissa_le_rounded (em : ExtendedMantissa) : em.mantissa ≤ em.roundedMantissa := by
  obtain ⟨m, r, s⟩ := em
  unfold ExtendedMantissa.roundedMantissa ExtendedMantissa.accuracy Accuracy.roundToNearestEven
  cases r <;> cases s <;> simp

theorem mantissa_ofAccuracy (m : Nat) (a : Accuracy) :
    (ExtendedMantissa.ofMantissaAndAccuracy m a).mantissa = m := by
  unfold ExtendedMantissa.ofMantissaAndAccuracy
  split <;> rfl

/-- The leading 53 bits of a number that has that many. -/
theorem leading_bits {n : Nat} (h : 52 ≤ n.log2) :
    fractionCount ≤ n / 2 ^ (n.log2 - 52) ∧ n / 2 ^ (n.log2 - 52) < 2 * fractionCount := by
  have hpos : n ≠ 0 := by
    rintro rfl
    exact absurd h (by decide)
  have hsplit : fractionCount * 2 ^ (n.log2 - 52) = 2 ^ n.log2 := by
    show 2 ^ 52 * 2 ^ (n.log2 - 52) = 2 ^ n.log2
    rw [← Nat.pow_add, Nat.add_sub_cancel' h]
  constructor
  · rw [Nat.le_div_iff_mul_le (Nat.two_pow_pos _), hsplit]
    exact Nat.log2_self_le hpos
  · rw [Nat.div_lt_iff_lt_mul (Nat.two_pow_pos _), Nat.mul_assoc, hsplit, Nat.mul_comm,
      ← Nat.pow_succ]
    exact Nat.lt_log2_self

/-- A significand that is full is shifted to exactly 53 bits. -/
theorem shiftToTargetExponent_full {m : Nat} {e : Int} (a : Accuracy) (hm : fractionCount ≤ m)
    (he : -1074 ≤ e) :
    fractionCount ≤ (shiftToTargetExponent Format.binary64 m e a).1.mantissa ∧
      (shiftToTargetExponent Format.binary64 m e a).1.mantissa < 2 * fractionCount ∧
      -1074 ≤ (shiftToTargetExponent Format.binary64 m e a).2 := by
  have hpos : m ≠ 0 := by
    unfold fractionCount at hm
    omega
  have hlog : 52 ≤ m.log2 := (Nat.le_log2 hpos).mpr hm
  obtain ⟨hlow, hhigh⟩ := leading_bits hlog
  have htarget : Format.binary64.targetExponent (totalExponent m e) = m.log2 - 52 + e := by
    show max ((m.log2 : Int) + 1 + e - (53 : Nat)) (-1074) = m.log2 - 52 + e
    omega
  have hshift : (Format.binary64.targetExponent (totalExponent m e) - e).toNat = m.log2 - 52 := by
    omega
  unfold shiftToTargetExponent shiftToExponent
  simp only [hshift, mantissa_shiftRight, mantissa_ofAccuracy, Nat.shiftRight_eq_div_pow]
  exact ⟨hlow, hhigh, by omega⟩

/-- **Rounding keeps a full significand full.** -/
theorem roundWithAccuracy_full (s : Sign) {m : Nat} {e : Int} (a : Accuracy)
    (hm : fractionCount ≤ m) (he : -1074 ≤ e) :
    ∃ m' e' h, roundWithAccuracy Format.binary64 s m e a = .finite s m' e' h ∧
      fractionCount ≤ m' ∧ m' < 2 * fractionCount ∧ -1074 ≤ e' := by
  obtain ⟨hlow, -, hexp⟩ := shiftToTargetExponent_full a hm he
  have hrounded := Nat.le_trans hlow (mantissa_le_rounded _)
  obtain ⟨hlow', hhigh', hexp'⟩ := shiftToTargetExponent_full .exact hrounded hexp
  unfold roundWithAccuracy
  refine ⟨_, _, Nat.lt_of_lt_of_le (by decide) hlow', ?_, hlow', hhigh', hexp'⟩
  exact dif_neg (Nat.ne_of_gt (Nat.lt_of_lt_of_le (by decide) hlow'))

/-- Rounding keeps the sign. -/
theorem roundWithAccuracy_sign (s : Sign) (m : Nat) (e : Int) (a : Accuracy) :
    roundWithAccuracy Format.binary64 s m e a = .zero s ∨
      ∃ m' e' h, roundWithAccuracy Format.binary64 s m e a = .finite s m' e' h := by
  by_cases h : (shiftToTargetExponent Format.binary64
      (shiftToTargetExponent Format.binary64 m e a).1.roundedMantissa
      (shiftToTargetExponent Format.binary64 m e a).2 .exact).1.mantissa = 0
  · exact Or.inl (dif_pos h)
  · exact Or.inr ⟨_, _, Nat.pos_of_ne_zero h, dif_neg h⟩

/-! ### Quotients -/

/-- The quotient of one by a number below one has a full significand. -/
theorem divCore_one_full {m : Nat} {e : Int} (hpos : 0 < m) (hm : m < 2 * fractionCount)
    (he : e ≤ -53) :
    fractionCount ≤ (divCore Format.binary64 fractionCount (-52) m e).1 ∧
      -1074 ≤ (divCore Format.binary64 fractionCount (-52) m e).2.1 := by
  have hlog : m.log2 ≤ 52 := Nat.le_of_lt_succ ((Nat.log2_lt (Nat.ne_of_gt hpos)).mpr hm)
  have htarget : min (-52 - e) (Format.binary64.targetExponent
      (totalExponent fractionCount (-52) - totalExponent m e)) = -53 - m.log2 - e := by
    have hone : (fractionCount.log2 : Int) = 52 := by decide
    show min (-52 - e) (max ((fractionCount.log2 + 1 + (-52)) - ((m.log2 : Int) + 1 + e) - (53 : Nat))
      (-1074)) = -53 - m.log2 - e
    omega
  have hshift : (-52 - e - (-53 - m.log2 - e)).toNat = m.log2 + 1 := by omega
  unfold divCore
  simp only [htarget, hshift]
  refine ⟨?_, by omega⟩
  rw [Nat.le_div_iff_mul_le hpos, Nat.shiftLeft_eq]
  exact Nat.mul_le_mul_left _ (Nat.le_of_lt Nat.lt_log2_self)

/-- What is written for a rounded result has its sign, and is a number. -/
theorem packed_round_sign (negative : Bool) (m : Nat) (e : Int) (a : Accuracy) :
    (packed (roundWithAccuracy Format.binary64 (signOf negative) m e a)).isNaN = false ∧
      (packed (roundWithAccuracy Format.binary64 (signOf negative) m e a)).isNegative =
        negative := by
  have hparts : ∀ k, k ≤ infinityMagnitude →
      (ofParts negative k).isNaN = false ∧ (ofParts negative k).isNegative = negative := by
    intro k hk
    have hlt : k < signWeight := Nat.lt_of_le_of_lt hk (by decide)
    refine ⟨?_, isNegative_ofParts hlt⟩
    rw [isNaN, magnitude_ofParts hlt]
    exact decide_eq_false (Nat.not_lt.mpr hk)
  rcases roundWithAccuracy_sign (signOf negative) m e a with h | ⟨m', e', hpos, h⟩
  · rw [h, packed_zero]
    exact hparts 0 (Nat.zero_le _)
  · rw [h, packed_finite]
    exact hparts _ (packedMagnitude_le m' e')

variable {x y r : Binary64}

/-- The quotient of two positive numbers is a number without the sign. -/
theorem div_of_pos (hx : x.isFinite = true) (hy : y.isFinite = true) (hxpos : (zero : Binary64) < x)
    (hypos : (zero : Binary64) < y) : (x / y).isNaN = false ∧ (x / y).isNegative = false := by
  obtain ⟨hxnan, hxsign, hxmag⟩ := zero_lt_iff.mp hxpos
  obtain ⟨hynan, hysign, hymag⟩ := zero_lt_iff.mp hypos
  rw [div_eq hxnan hynan, unpack_finite hx hxmag, unpack_finite hy hymag, hxsign, hysign]
  exact packed_round_sign false _ _ _

theorem unpack_neg_one : (-one : Binary64).unpacked =
    .finite (signOf true) fractionCount (-52) (by decide) := by
  have hparts : (-one : Binary64) = ofParts true (1023 * fractionCount) := by
    rw [one_eq]
    decide
  rw [hparts, unpack_finite (by decide) (by decide)]
  rfl

/-- **Minus the reciprocal of a number below one and not below zero is below zero.** -/
theorem neg_recip_lt_zero (hnan : r.isNaN = false) (hsign : r.isNegative = false)
    (hlt : r < (one : Binary64)) : -one / r < (zero : Binary64) := by
  have hmag : r.magnitude < 1023 * fractionCount := by
    have hkey := (lt_iff.mp hlt).2.2
    rw [one_key.2, numericKey, hsign, if_neg (by decide)] at hkey
    omega
  rw [div_eq (by rw [one_eq]; decide) hnan, unpack_neg_one]
  rcases Nat.eq_zero_or_pos r.magnitude with hzero | hpos
  · rw [unpack_zero hzero, hsign]
    exact lt_zero_iff.mpr (by decide)
  · have hfinite : r.isFinite = true := decide_eq_true (Nat.lt_trans hmag (by decide))
    have hexp : (r.exponent : Int) - 1074 ≤ -53 := by
      unfold exponent fractionCount at *
      omega
    have hsig : r.significand < 2 * fractionCount := by
      unfold significand fractionCount at *
      split <;> omega
    rw [unpack_finite hfinite hpos, hsign]
    obtain ⟨hfull, hbound⟩ := divCore_one_full (significand_pos hpos) hsig hexp
    obtain ⟨m, e, hm, hround, hlow, hhigh, hbelow⟩ :=
      roundWithAccuracy_full (signOf true) (divCore Format.binary64 fractionCount (-52) r.significand
        ((r.exponent : Int) - 1074)).2.2 hfull hbound
    have hdiv : UnpackedFloat.div Format.binary64
        (.finite (signOf true) fractionCount (-52) (by decide)) (.finite (signOf false) r.significand
          ((r.exponent : Int) - 1074) (significand_pos hpos)) = .finite (signOf true) m e hm :=
      hround
    have hle := packedMagnitude_le m e
    have hlt : packedMagnitude m e < signWeight := Nat.lt_of_le_of_lt hle (by decide)
    rw [hdiv, packed_finite, lt_zero_iff, isNaN, magnitude_ofParts hlt, isNegative_ofParts hlt]
    refine ⟨decide_eq_false (Nat.not_lt.mpr hle), rfl, ?_⟩
    by_cases hover : 972 ≤ e
    · rw [packedMagnitude, if_pos hover]
      decide
    · have hexp' : 0 < (e + 1075).toNat := by omega
      rw [packedMagnitude_normal hlow hhigh hbelow (by omega)]
      exact Nat.add_pos_left (Nat.mul_pos hexp' (by decide)) _

end RunCompare.Binary64
