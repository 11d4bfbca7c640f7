/-
How the processor reads a pattern and how it writes one.

The processor's arithmetic takes a pattern apart into a sign, a significand and
an exponent, works on those, and packs the result.  `unpack_finite` and its
neighbours say what it reads, in terms of the parts that `Binary64` names, and
`packed_unpacked` that nothing is lost on the way in.  On the way out, the
magnitude is all that matters: `packedMagnitude_le` bounds it.
-/
import RunCompare.Binary64.Scalar
import Mathlib

namespace RunCompare.Binary64

open Float.Model Float.Model.UnpackedFloat

/-! ### Sign and magnitude -/

theorem eq_of_toNat_bits {x y : Binary64} (h : x.bits.toNat = y.bits.toNat) : x = y :=
  congrArg Binary64.mk (UInt64.toNat_inj.mp h)

theorem toNat_ofParts {negative : Bool} {m : Nat} (h : m < signWeight) :
    (ofParts negative m).bits.toNat = if negative then signWeight + m else m := by
  unfold signWeight at h
  unfold ofParts signWeight
  rw [UInt64.toNat_ofNat']
  cases negative with
  | true => exact Nat.mod_eq_of_lt (by simp; omega)
  | false => exact Nat.mod_eq_of_lt (by simp; omega)

theorem magnitude_ofParts {negative : Bool} {m : Nat} (h : m < signWeight) :
    (ofParts negative m).magnitude = m := by
  rw [magnitude, toNat_ofParts h]
  unfold signWeight at h ⊢
  cases negative with
  | true => rw [if_pos rfl]; omega
  | false => exact Nat.mod_eq_of_lt h

theorem isNegative_ofParts {negative : Bool} {m : Nat} (h : m < signWeight) :
    (ofParts negative m).isNegative = negative := by
  rw [isNegative, toNat_ofParts h]
  cases negative with
  | true => exact decide_eq_true (Nat.le_add_right _ _)
  | false => exact decide_eq_false (Nat.not_le.mpr h)

/-! ### Reading -/

/-- The processor's sign. -/
def signOf : Bool → Sign
  | true => .negative
  | false => .positive

/-- What the processor reads from a pattern. -/
def unpacked (x : Binary64) : UnpackedFloat :=
  UnpackedFloat.unpack Format.binary64 x.bits.toBitVec

theorem toNat_unpackMantissa (x : Binary64) :
    (@unpackMantissa Format.binary64 x.bits.toBitVec).toNat = x.magnitude % fractionCount := by
  have hparts : (@unpackMantissa Format.binary64 x.bits.toBitVec).toNat =
      x.bits.toNat % fractionCount := by
    simp [unpackMantissa, BitVec.extractLsb, BitVec.extractLsb', fractionCount]
  rw [hparts, magnitude, signWeight, fractionCount]
  omega

theorem toNat_unpackExponent (x : Binary64) :
    (@unpackExponent Format.binary64 x.bits.toBitVec).toNat = x.magnitude / fractionCount := by
  have hparts : (@unpackExponent Format.binary64 x.bits.toBitVec).toNat =
      x.bits.toNat / fractionCount % 2048 := by
    simp [unpackExponent, BitVec.extractLsb, BitVec.extractLsb', Nat.shiftRight_eq_div_pow,
      fractionCount]
  rw [hparts, magnitude, signWeight, fractionCount]
  omega

theorem ofBitVec_unpackSign (x : Binary64) :
    Sign.ofBitVec (@unpackSign Format.binary64 x.bits.toBitVec) = signOf x.isNegative := by
  have hlt : x.bits.toNat < 2 ^ 64 := x.bits.toNat_lt
  have hparts : (@unpackSign Format.binary64 x.bits.toBitVec).toNat =
      x.bits.toNat / signWeight := by
    simp [unpackSign, BitVec.extractLsb, BitVec.extractLsb', Nat.shiftRight_eq_div_pow, signWeight]
    omega
  have hzero : @unpackSign Format.binary64 x.bits.toBitVec = 0#1 ↔ ¬ signWeight ≤ x.bits.toNat := by
    rw [← BitVec.toNat_inj, hparts, signWeight]
    show x.bits.toNat / 0x8000000000000000 = 0 ↔ _
    omega
  unfold Sign.ofBitVec isNegative
  by_cases h : signWeight ≤ x.bits.toNat
  · rw [if_neg (mt hzero.mp (not_not_intro h)), decide_eq_true h, signOf]
  · rw [if_pos (hzero.mpr h), decide_eq_false h, signOf]

theorem significand_pos {x : Binary64} (h : 0 < x.magnitude) : 0 < x.significand := by
  unfold significand fractionCount
  split
  · exact h
  · omega

/-- A finite pattern is not read as an exceptional one. -/
theorem unpackExponent_ne {x : Binary64} (h : x.isFinite = true) :
    @unpackExponent Format.binary64 x.bits.toBitVec ≠ -1#_ := by
  have hlt : x.magnitude < 2047 * fractionCount := of_decide_eq_true h
  intro heq
  have hnat : x.magnitude / fractionCount = 2047 := by
    rw [← toNat_unpackExponent, heq]
    rfl
  unfold fractionCount at hlt hnat
  omega

theorem unpack_zero {x : Binary64} (h : x.magnitude = 0) : x.unpacked = .zero (signOf x.isNegative) := by
  have hfinite : x.isFinite = true := decide_eq_true (by rw [h]; decide)
  have hexp : @unpackExponent Format.binary64 x.bits.toBitVec = 0#_ := by
    refine BitVec.eq_of_toNat_eq ?_
    rw [toNat_unpackExponent, h]
    rfl
  have hman : @unpackMantissa Format.binary64 x.bits.toBitVec = 0#_ := by
    refine BitVec.eq_of_toNat_eq ?_
    rw [toNat_unpackMantissa, h]
    rfl
  unfold unpacked UnpackedFloat.unpack
  simp only [if_neg (unpackExponent_ne hfinite), if_pos hexp, dif_pos hman, ofBitVec_unpackSign]

/-- **A finite value is read as its significand and its exponent.** -/
theorem unpack_finite {x : Binary64} (h : x.isFinite = true) (hpos : 0 < x.magnitude) :
    x.unpacked = .finite (signOf x.isNegative) x.significand ((x.exponent : Int) - 1074) (significand_pos hpos) := by
  have hmantissa := toNat_unpackMantissa x
  have hexponent := toNat_unpackExponent x
  have hbias : ∀ e : Int, e - ((Format.binary64.exponentBias : Int) +
      (Format.binary64.mantissaBitsWithoutImplicit : Int)) = e - 1075 := fun _ => rfl
  unfold unpacked UnpackedFloat.unpack
  simp only [if_neg (unpackExponent_ne h), ofBitVec_unpackSign, hbias]
  split
  · rename_i hsub
    have hsmall : x.magnitude / fractionCount = 0 := by
      rw [← hexponent, hsub]
      rfl
    have hman : @unpackMantissa Format.binary64 x.bits.toBitVec ≠ 0#_ := by
      intro heq
      have hlow : 0 = x.magnitude % fractionCount := by
        rw [← hmantissa, heq]
        rfl
      unfold fractionCount at hlow hsmall
      omega
    rw [dif_neg hman, UnpackedFloat.finite.injEq, hmantissa, hexponent, significand, exponent,
      if_pos hsmall, hsmall]
    refine ⟨rfl, ?_, rfl⟩
    unfold fractionCount at hsmall ⊢
    omega
  · rename_i hnormal
    have hlarge : x.magnitude / fractionCount ≠ 0 := by
      intro heq
      rw [← hexponent] at heq
      exact hnormal (BitVec.eq_of_toNat_eq heq)
    rw [UnpackedFloat.finite.injEq, BitVec.toNat_append, ← Nat.shiftLeft_add_eq_or_of_lt
      (BitVec.isLt _), hmantissa, hexponent, significand, exponent, if_neg hlarge]
    refine ⟨rfl, rfl, ?_⟩
    omega

/-! ### Writing -/

/-- The value whose pattern the processor writes. -/
def packed (f : UnpackedFloat) : Binary64 := ⟨(Float.Model.pack f).toBits⟩

/-- The components of a pattern are a sign and a magnitude. -/
theorem ofBitVec_packComponents (negative : Bool) (e : BitVec 11) (m : BitVec 52) :
    (⟨UInt64.ofBitVec (packComponents Format.binary64 (signOf negative) e m)⟩ : Binary64) =
      ofParts negative (e.toNat * fractionCount + m.toNat) := by
  have he : e.toNat < 2048 := e.isLt
  have hm : m.toNat < fractionCount := m.isLt
  have hbits : (packComponents Format.binary64 (signOf negative) e m).toNat =
      (signOf negative).toBitVec.toNat * signWeight + e.toNat * fractionCount + m.toNat := by
    unfold packComponents signWeight fractionCount
    rw [BitVec.toNat_append, ← Nat.shiftLeft_add_eq_or_of_lt m.isLt, BitVec.toNat_append,
      ← Nat.shiftLeft_add_eq_or_of_lt e.isLt]
    simp only [Nat.shiftLeft_eq]
    omega
  have hlt : e.toNat * fractionCount + m.toNat < signWeight := by
    unfold fractionCount signWeight at *
    omega
  refine eq_of_toNat_bits ?_
  rw [toNat_ofParts hlt]
  show (packComponents Format.binary64 (signOf negative) e m).toNat = _
  rw [hbits]
  cases negative with
  | true =>
      show 1 * signWeight + _ + _ = signWeight + _
      omega
  | false =>
      show 0 * signWeight + _ + _ = e.toNat * fractionCount + m.toNat
      omega

theorem packed_zero (negative : Bool) : packed (.zero (signOf negative)) = ofParts negative 0 :=
  ofBitVec_packComponents negative 0#11 0#52

/-- The magnitude that the processor writes for a significand and an exponent. -/
def packedMagnitude (m : Nat) (e : Int) : Nat :=
  if 972 ≤ e then infinityMagnitude
  else if m.log2 = 52 then (e + 1075).toNat % 2048 * fractionCount + m % fractionCount
  else m % fractionCount

theorem packed_finite (negative : Bool) (m : Nat) (e : Int) (hm : 0 < m) :
    packed (.finite (signOf negative) m e hm) = ofParts negative (packedMagnitude m e) := by
  have hbias : (e + (Format.binary64.exponentBias : Int)
      + (Format.binary64.mantissaBitsWithoutImplicit : Int)) = e + 1075 := by
    show e + 1023 + 52 = e + 1075
    omega
  have hbits : m.log2 + 1 = Format.binary64.mantissaBits ↔ m.log2 = 52 := by
    show m.log2 + 1 = 53 ↔ m.log2 = 52
    omega
  have hover : 2 ^ Format.binary64.exponentBits ≤ (e + 1075).toNat + 1 ↔ 972 ≤ e := by
    show 2048 ≤ (e + 1075).toNat + 1 ↔ 972 ≤ e
    omega
  unfold packed Float.Model.pack UnpackedFloat.pack packedMagnitude
  simp only [hbias, hbits, hover]
  split
  · exact ofBitVec_packComponents negative (-1#11) 0#52
  · split
    · exact ofBitVec_packComponents negative (BitVec.ofNat 11 _) (BitVec.ofNat 52 _)
    · rw [← Nat.zero_add (m % fractionCount)]
      exact ofBitVec_packComponents negative 0#11 (BitVec.ofNat 52 _)

theorem packedMagnitude_normal {m : Nat} {e : Int} (hlow : fractionCount ≤ m)
    (hhigh : m < 2 * fractionCount) (he : -1074 ≤ e) (he' : e < 972) :
    packedMagnitude m e = (e + 1075).toNat * fractionCount + (m - fractionCount) := by
  unfold fractionCount at hlow hhigh
  have hlog : m.log2 = 52 := (Nat.log2_eq_iff (by omega)).mpr ⟨by omega, by omega⟩
  rw [packedMagnitude, if_neg (by omega), if_pos hlog, fractionCount]
  omega

/-- No number is written as a pattern beyond infinity. -/
theorem packedMagnitude_le (m : Nat) (e : Int) : packedMagnitude m e ≤ infinityMagnitude := by
  unfold packedMagnitude infinityMagnitude fractionCount
  split
  · exact Nat.le_refl _
  · split
    · omega
    · omega

/-- **Nothing is lost when a value is read.** -/
theorem packed_unpacked {x : Binary64} (h : x.isNaN = false) : packed x.unpacked = x := by
  have hle : x.magnitude ≤ infinityMagnitude := Nat.not_lt.mp (of_decide_eq_false h)
  have hnumber : ¬ @isNaNBits Format.binary64 x.bits.toBitVec = true := by
    intro hnan
    obtain ⟨hexp, hman⟩ := of_decide_eq_true hnan
    have hexp' : x.magnitude / fractionCount = 2047 := by
      rw [← toNat_unpackExponent, hexp]
      rfl
    have hman' : x.magnitude % fractionCount ≠ 0 := by
      intro hzero
      refine hman (BitVec.eq_of_toNat_eq ?_)
      rw [toNat_unpackMantissa, hzero]
      rfl
    unfold infinityMagnitude at hle
    unfold fractionCount at hle hexp' hman'
    omega
  show (⟨UInt64.ofBitVec (UnpackedFloat.pack Format.binary64
    (UnpackedFloat.unpack Format.binary64 x.bits.toBitVec))⟩ : Binary64) = x
  rw [pack_unpack, if_neg hnumber]

/-- The processor works on what was read. -/
theorem unpack_toFloat {x : Binary64} (h : x.isNaN = false) :
    x.toFloat.toModel.unpack = x.unpacked := by
  show UnpackedFloat.unpack Format.binary64 (packed x.unpacked).bits.toBitVec = x.unpacked
  rw [packed_unpacked h, unpacked]

/-- A quotient of numbers is the rounded quotient of what they are read as. -/
theorem div_eq {x y : Binary64} (hx : x.isNaN = false) (hy : y.isNaN = false) :
    x / y = packed (UnpackedFloat.div Format.binary64 x.unpacked y.unpacked) := by
  rw [← unpack_toFloat hx, ← unpack_toFloat hy]
  rfl

end RunCompare.Binary64
