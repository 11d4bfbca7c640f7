/-
How far a rounded product and a rounded natural number can lie above the exact one.

A rounded significand is at most one place above the exact one.  Of a full
significand that is less than an eighth, which is all that is needed here: three
quarters of a number, rounded twice, stay below it (`ceilNat_mul_ofNat_le`).
-/
import RunCompare.Proofs.Binary64.Quotient

namespace RunCompare.Binary64

open Float.Model Float.Model.UnpackedFloat Scalar

/-! ### Rounding up -/

theorem roundedMantissa_le (em : ExtendedMantissa) : em.roundedMantissa ≤ em.mantissa + 1 := by
  obtain ⟨m, r, s⟩ := em
  cases r with
  | false => cases s <;> exact Nat.le_succ m
  | true =>
      cases s with
      | false => exact Nat.add_le_add_left (Nat.le_of_lt_succ (Nat.mod_lt m Nat.two_pos)) m
      | true => exact Nat.le_refl (m + 1)

/-- Shifting drops places at the end of the significand, as many as the exponent grows. -/
theorem shiftToTargetExponent_eq (m : Nat) (e : Int) (a : Accuracy) :
    ∃ k : Nat, (shiftToTargetExponent Format.binary64 m e a).1.mantissa = m / 2 ^ k ∧
      (shiftToTargetExponent Format.binary64 m e a).2 = e + k := by
  refine ⟨_, ?_, rfl⟩
  unfold shiftToTargetExponent shiftToExponent
  simp only [mantissa_shiftRight, mantissa_ofAccuracy, Nat.shiftRight_eq_div_pow]

/-- One place more than the places of a full significand is at most an eighth more. -/
theorem mul_two_pow_le {m r k : Nat} (hfull : fractionCount ≤ m / 2 ^ k) (hr : r ≤ m / 2 ^ k + 1) :
    8 * (r * 2 ^ k) ≤ 9 * m := by
  have hplace : fractionCount * 2 ^ k ≤ m := (Nat.le_div_iff_mul_le (Nat.two_pow_pos k)).mp hfull
  have hle : r * 2 ^ k ≤ m + 2 ^ k := by
    calc r * 2 ^ k ≤ (m / 2 ^ k + 1) * 2 ^ k := Nat.mul_le_mul_right _ hr
      _ = m / 2 ^ k * 2 ^ k + 2 ^ k := by rw [Nat.add_mul, Nat.one_mul]
      _ ≤ m + 2 ^ k := Nat.add_le_add_right (Nat.div_mul_le_self m _) _
  unfold fractionCount at hplace
  omega

/-- **Rounding a full significand adds at most an eighth.** -/
theorem roundWithAccuracy_le (s : Sign) {m : Nat} {e : Int} (hm : fractionCount ≤ m)
    (he : -1074 ≤ e) : ∃ (m' k : Nat) (h : 0 < m'),
      roundWithAccuracy Format.binary64 s m e .exact = .finite s m' (e + k) h ∧
        fractionCount ≤ m' ∧ m' < 2 * fractionCount ∧ 8 * (m' * 2 ^ k) ≤ 9 * m := by
  obtain ⟨k₁, hmantissa, hexp⟩ := shiftToTargetExponent_eq m e .exact
  obtain ⟨hlow, -, hbelow⟩ := shiftToTargetExponent_full .exact hm he
  obtain ⟨k₂, hmantissa', hexp'⟩ := shiftToTargetExponent_eq
    (shiftToTargetExponent Format.binary64 m e .exact).1.roundedMantissa
    (shiftToTargetExponent Format.binary64 m e .exact).2 .exact
  obtain ⟨hlow', hhigh', -⟩ :=
    shiftToTargetExponent_full .exact (Nat.le_trans hlow (mantissa_le_rounded _)) hbelow
  have hrounded := roundedMantissa_le (shiftToTargetExponent Format.binary64 m e .exact).1
  rw [hmantissa] at hlow hrounded
  have hexponent : (shiftToTargetExponent Format.binary64
      (shiftToTargetExponent Format.binary64 m e .exact).1.roundedMantissa
      (shiftToTargetExponent Format.binary64 m e .exact).2 .exact).2 = e + (k₁ + k₂ : Nat) := by
    rw [hexp', hexp]
    push_cast
    ring
  refine ⟨_, k₁ + k₂, Nat.lt_of_lt_of_le (by decide) hlow', ?_, hlow', hhigh', ?_⟩
  · rw [← hexponent]
    exact dif_neg (Nat.ne_of_gt (Nat.lt_of_lt_of_le (by decide) hlow'))
  · rw [hmantissa', Nat.add_comm k₁, Nat.pow_add, ← Nat.mul_assoc (_ / _)]
    refine Nat.le_trans (Nat.mul_le_mul_left 8 (Nat.mul_le_mul_right (2 ^ k₁)
      (Nat.div_mul_le_self _ (2 ^ k₂)))) ?_
    exact mul_two_pow_le hlow hrounded

/-! ### Parts of a value with a full significand -/

/-- A magnitude that is a whole number of exponents and a full significand. -/
theorem units_of_magnitude {x : Binary64} {s q : Nat} (hx : x.magnitude = s * fractionCount + q)
    (hlow : fractionCount ≤ q) (hhigh : q ≤ 2 * fractionCount) :
    x.units = q * 2 ^ s ∧ fractionCount ≤ x.significand ∧ s ≤ x.exponent := by
  unfold units significand exponent
  rw [Nat.shiftLeft_eq, hx]
  rcases Nat.lt_or_eq_of_le hhigh with hlt | htop
  · have hdiv : (s * fractionCount + q) / fractionCount = s + 1 := by
      unfold fractionCount at *
      omega
    have hmod : fractionCount + (s * fractionCount + q) % fractionCount = q := by
      unfold fractionCount at *
      omega
    rw [hdiv, if_neg (Nat.succ_ne_zero s), hmod, Nat.add_sub_cancel]
    exact ⟨rfl, hlow, Nat.le_refl s⟩
  · -- The significand carries into the exponent.
    have hdiv : (s * fractionCount + q) / fractionCount = s + 2 := by
      unfold fractionCount at *
      omega
    have hmod : (s * fractionCount + q) % fractionCount = 0 := by
      unfold fractionCount at *
      omega
    rw [hdiv, if_neg (Nat.succ_ne_zero (s + 1)), hmod, Nat.add_zero]
    refine ⟨?_, Nat.le_refl _, Nat.le_succ s⟩
    rw [htop, Nat.add_sub_cancel (s + 1) 1, Nat.pow_succ]
    ring

variable {x y : Binary64}

/-- What is read from a finite value without the sign and with a full significand. -/
theorem unpack_of_full (hfinite : x.isFinite = true) (hsign : x.isNegative = false)
    (hfull : fractionCount ≤ x.significand) :
    ∃ h, x.unpacked = .finite .positive x.significand ((x.exponent : Int) - 1074) h := by
  have hpos : 0 < x.magnitude := by
    refine Nat.pos_of_ne_zero fun hzero => ?_
    rw [significand, hzero] at hfull
    exact absurd hfull (by decide)
  refine ⟨significand_pos hpos, ?_⟩
  rw [unpack_finite hfinite hpos, hsign, signOf]

/-- The magnitude that is written is that of the value. -/
theorem magnitude_packed {m : Nat} {e : Int} (hm : 0 < m) :
    (packed (.finite .positive m e hm)).magnitude = packedMagnitude m e := by
  have hparts := packed_finite false m e hm
  rw [signOf] at hparts
  rw [hparts, magnitude_ofParts (Nat.lt_of_le_of_lt (packedMagnitude_le m e) (by decide))]

/-- The units of a finite value that is written for a full significand. -/
theorem units_packed {m : Nat} {e : Int} (hm : 0 < m) (hlow : fractionCount ≤ m)
    (hhigh : m < 2 * fractionCount) (he : -1074 ≤ e)
    (hfinite : (packed (.finite .positive m e hm)).isFinite = true) :
    (packed (.finite .positive m e hm)).units = m * 2 ^ (e + 1074).toNat := by
  have hover : e < 972 := by
    refine Int.not_le.mp fun hover => ?_
    rw [isFinite, magnitude_packed, packedMagnitude, if_pos hover] at hfinite
    exact absurd hfinite (by decide)
  refine (units_of_magnitude ?_ hlow (Nat.le_of_lt hhigh)).1
  rw [magnitude_packed, packedMagnitude_normal hlow hhigh he hover]
  unfold fractionCount at *
  omega

/-! ### Products -/

theorem unitsInOne_eq : unitsInOne = 1 <<< 1074 := rfl

theorem unitsInOne_pos : 0 < unitsInOne := by decide

/-- The bound of the significands of a product is that of the numbers: exponents add up. -/
theorem mul_places_le {m m₁ m₂ k e e₁ e₂ unit p : Nat} (hunit : unit = 1 <<< p)
    (hplaces : e + p = k + (e₁ + e₂)) (hle : 8 * (m * 2 ^ k) ≤ 9 * (m₁ * m₂)) :
    8 * (m * 2 ^ e * unit) ≤ 9 * (m₁ * 2 ^ e₁ * (m₂ * 2 ^ e₂)) := by
  calc 8 * (m * 2 ^ e * unit)
      = 8 * (m * 2 ^ k) * 2 ^ (e₁ + e₂) := by
        rw [hunit, Nat.one_shiftLeft, Nat.mul_assoc m, ← Nat.pow_add, hplaces, Nat.pow_add, ← Nat.mul_assoc m,
          Nat.mul_assoc 8]
    _ ≤ 9 * (m₁ * m₂) * 2 ^ (e₁ + e₂) := Nat.mul_le_mul_right _ hle
    _ = 9 * (m₁ * 2 ^ e₁ * (m₂ * 2 ^ e₂)) := by
        rw [Nat.pow_add]
        ring

/-- A product of numbers is the rounded product of what they are read as. -/
theorem mul_eq (hx : x.isNaN = false) (hy : y.isNaN = false) :
    x * y = packed (UnpackedFloat.mul Format.binary64 x.unpacked y.unpacked) := by
  rw [← unpack_toFloat hx, ← unpack_toFloat hy]
  rfl

/-- What is written for a product of full significands. -/
theorem mul_of_full (hx : x.isFinite = true) (hy : y.isFinite = true)
    (hxsign : x.isNegative = false) (hysign : y.isNegative = false)
    (hxfull : fractionCount ≤ x.significand) (hyfull : fractionCount ≤ y.significand)
    (hexp : 1074 ≤ x.exponent + y.exponent) : ∃ (m k : Nat) (hm : 0 < m),
      x * y = packed (.finite .positive m
        ((x.exponent : Int) - 1074 + (y.exponent - 1074) + k) hm) ∧
      fractionCount ≤ m ∧ m < 2 * fractionCount ∧
      8 * (m * 2 ^ k) ≤ 9 * (x.significand * y.significand) := by
  obtain ⟨hxpos, hxread⟩ := unpack_of_full hx hxsign hxfull
  obtain ⟨hypos, hyread⟩ := unpack_of_full hy hysign hyfull
  have hfull : fractionCount ≤ x.significand * y.significand :=
    Nat.le_trans hxfull (Nat.le_mul_of_pos_right _ hypos)
  obtain ⟨m, k, hm, hround, hbound⟩ := roundWithAccuracy_le .positive hfull
    (show -1074 ≤ (x.exponent : Int) - 1074 + (y.exponent - 1074) by omega)
  refine ⟨m, k, hm, ?_, hbound⟩
  rw [mul_eq (isNaN_of_isFinite hx) (isNaN_of_isFinite hy), hxread, hyread, ← hround]
  rfl

/-- **A finite product of full significands is at most an eighth above the exact one.** -/
theorem mul_units_le (hx : x.isFinite = true) (hy : y.isFinite = true)
    (hxsign : x.isNegative = false) (hysign : y.isNegative = false)
    (hxfull : fractionCount ≤ x.significand) (hyfull : fractionCount ≤ y.significand)
    (hexp : 1074 ≤ x.exponent + y.exponent) (hfinite : (x * y).isFinite = true) :
    8 * ((x * y).units * unitsInOne) ≤ 9 * (x.units * y.units) := by
  obtain ⟨m, k, hm, hmul, hlow, hhigh, hle⟩ := mul_of_full hx hy hxsign hysign hxfull hyfull hexp
  rw [hmul] at hfinite ⊢
  rw [units_packed hm hlow hhigh (by omega) hfinite, units, units, Nat.shiftLeft_eq,
    Nat.shiftLeft_eq]
  exact mul_places_le unitsInOne_eq (by omega) hle

theorem significand_lt (x : Binary64) : x.significand < 2 * fractionCount := by
  unfold significand fractionCount
  split <;> omega

/-- **A product of full significands overflows only if its exponent does.** -/
theorem mul_isFinite (hx : x.isFinite = true) (hy : y.isFinite = true)
    (hxsign : x.isNegative = false) (hysign : y.isNegative = false)
    (hxfull : fractionCount ≤ x.significand) (hyfull : fractionCount ≤ y.significand)
    (hexp : 1074 ≤ x.exponent + y.exponent) (hover : x.exponent + y.exponent ≤ 3065) :
    (x * y).isFinite = true ∧ (x * y).isNegative = false := by
  obtain ⟨m, k, hm, hmul, hlow, hhigh, hle⟩ := mul_of_full hx hy hxsign hysign hxfull hyfull hexp
  have hlt : x.significand * y.significand < 2 * fractionCount * (2 * fractionCount) :=
    Nat.mul_lt_mul'' (significand_lt x) (significand_lt y)
  have hk : k < 55 := by
    refine Nat.lt_of_not_le fun hge => ?_
    have hgrow : fractionCount * 2 ^ 55 ≤ m * 2 ^ k :=
      Nat.mul_le_mul hlow (Nat.pow_le_pow_right Nat.two_pos hge)
    unfold fractionCount at *
    omega
  constructor
  · rw [hmul, isFinite, magnitude_packed, packedMagnitude_normal hlow hhigh (by omega) (by omega),
      decide_eq_true_eq]
    unfold infinityMagnitude fractionCount at *
    omega
  · rw [hmul]
    exact (congrArg isNegative (packed_finite false _ _ hm)).trans
      (isNegative_ofParts (Nat.lt_of_le_of_lt (packedMagnitude_le m _) (by decide)))

/-! ### Natural numbers -/

theorem divToEven_le (num den : Nat) : divToEven num den ≤ num / den + 1 := by
  simp only [divToEven]
  split
  · exact Nat.le_refl _
  · exact Nat.le_succ _

theorem le_divToEven (num den : Nat) : num / den ≤ divToEven num den := by
  simp only [divToEven]
  split
  · exact Nat.le_succ _
  · exact Nat.le_refl _

theorem le_log2_mul {n unit p : Nat} (hunit : unit = 1 <<< p) (hn : 0 < n) :
    p ≤ (n * unit).log2 := by
  rw [Nat.one_shiftLeft] at hunit
  have hpos : 0 < unit := hunit ▸ Nat.two_pow_pos p
  rw [Nat.le_log2 (Nat.ne_of_gt (Nat.mul_pos hn hpos)), ← hunit]
  exact Nat.le_mul_of_pos_left _ hn

theorem log2_mul_lt {n unit p k : Nat} (hunit : unit = 1 <<< p) (hn : 0 < n) (hlt : n < 2 ^ k) :
    (n * unit).log2 < k + p := by
  rw [Nat.one_shiftLeft] at hunit
  have hpos : 0 < unit := hunit ▸ Nat.two_pow_pos p
  rw [Nat.log2_lt (Nat.ne_of_gt (Nat.mul_pos hn hpos)), Nat.pow_add, ← hunit]
  exact Nat.mul_lt_mul_of_pos_right hlt hpos

/-- The exponent of a natural number and its leading bits, unless it overflows. -/
theorem magnitude_ofNat (n : Nat) : (ofNat n).magnitude =
    min (((n * unitsInOne).log2 - 52) * fractionCount +
      divToEven (n * unitsInOne) (2 ^ ((n * unitsInOne).log2 - 52))) infinityMagnitude := by
  have hmag : (ofNat n).magnitude = magnitudeOfRatio n 1 := magnitude_ofParts
    (Nat.lt_of_le_of_lt (Nat.min_le_right _ _) (by decide))
  rw [hmag]
  simp only [magnitudeOfRatio, Nat.div_one, Nat.one_shiftLeft]

/-- The leading bits of a natural number, rounded. -/
theorem ofNat_bits {n : Nat} (hn : 0 < n) :
    fractionCount ≤ divToEven (n * unitsInOne) (2 ^ ((n * unitsInOne).log2 - 52)) ∧
      divToEven (n * unitsInOne) (2 ^ ((n * unitsInOne).log2 - 52)) ≤ 2 * fractionCount := by
  have hlog : 1074 ≤ (n * unitsInOne).log2 := le_log2_mul unitsInOne_eq hn
  obtain ⟨hlow, hhigh⟩ := leading_bits (Nat.le_trans (by decide) hlog)
  exact ⟨Nat.le_trans hlow (le_divToEven _ _), Nat.le_trans (divToEven_le _ _) hhigh⟩

/-- **A finite natural number is at most an eighth above the exact one, and full.** -/
theorem ofNat_units_le {n : Nat} (hn : 0 < n) (hfinite : (ofNat n).isFinite = true) :
    8 * (ofNat n).units ≤ 9 * (n * unitsInOne) ∧ fractionCount ≤ (ofNat n).significand ∧
      1022 ≤ (ofNat n).exponent := by
  have hlog : 1074 ≤ (n * unitsInOne).log2 := le_log2_mul unitsInOne_eq hn
  have hlt : (ofNat n).magnitude < infinityMagnitude := of_decide_eq_true hfinite
  have hmag := magnitude_ofNat n
  obtain ⟨hlow, hhigh⟩ := ofNat_bits hn
  rw [Nat.min_eq_left (by omega)] at hmag
  obtain ⟨hunits, hsig, hexp⟩ := units_of_magnitude hmag hlow hhigh
  refine ⟨?_, hsig, by omega⟩
  rw [hunits]
  exact mul_two_pow_le (leading_bits (by omega)).1 (divToEven_le _ _)

/-- A natural number of at most 64 bits does not overflow. -/
theorem ofNat_isFinite {n : Nat} (hn : 0 < n) (hlt : n < 2 ^ 64) :
    (ofNat n).isFinite = true ∧ (ofNat n).exponent ≤ 1086 := by
  have hlog : (n * unitsInOne).log2 < 64 + 1074 := log2_mul_lt unitsInOne_eq hn hlt
  have hexp : ((n * unitsInOne).log2 - 52) * fractionCount ≤ 1085 * fractionCount :=
    Nat.mul_le_mul_right _ (by omega)
  have hmag : (ofNat n).magnitude ≤ 1087 * fractionCount := by
    rw [magnitude_ofNat]
    have hhigh := (ofNat_bits hn).2
    omega
  unfold isFinite exponent infinityMagnitude fractionCount at *
  exact ⟨decide_eq_true (by omega), by omega⟩

theorem isNegative_ofNat (n : Nat) : (ofNat n).isNegative = false :=
  isNegative_ofParts (Nat.lt_of_le_of_lt (Nat.min_le_right _ _) (by decide))

end RunCompare.Binary64
