/-
The total order clause by clause, and what is read off samples that it sorts.

The total order keeps the numeric order and puts negative zero below zero.  Values
that are not numbers lie beyond the infinity of their sign, those with the greater
magnitude further out.  Only one relation on patterns has these clauses
(`RanksPatterns.eq_totalLe`).

It ranks no two patterns level, so there is one list that holds the samples of a
series in its order.  Summaries and percentiles read nothing but that list, and are
the same to the last bit in every order of the samples, whatever the sums and
quotients that they compute from it are rounded to.
-/
import RunCompare.Proofs.Binary64.Arithmetic

namespace RunCompare.Binary64

open Scalar Stats

/-! ### The clauses -/

/-- A relation ranks a pattern below another one, and not level with it. -/
def RanksBelow (le : Binary64 → Binary64 → Bool) (x y : Binary64) : Prop :=
  le x y = true ∧ le y x = false

/-- The clauses of the total order. -/
structure RanksPatterns (le : Binary64 → Binary64 → Bool) : Prop where
  trans : ∀ x y z, le x y = true → le y z = true → le x z = true
  total : ∀ x y, (le x y || le y x) = true
  /-- The infinities are among the numbers. -/
  numbers : ∀ x y, x < y → RanksBelow le x y
  zeros : RanksBelow le (ofParts true 0) (ofParts false 0)
  above : ∀ x y, x.isNaN = false → y.isNaN = true → y.isNegative = false → RanksBelow le x y
  below : ∀ x y, x.isNaN = true → y.isNaN = false → x.isNegative = true → RanksBelow le x y
  outwards : ∀ x y, x.isNaN = true → y.isNaN = true → x.isNegative = false →
    y.isNegative = false → x.magnitude < y.magnitude → RanksBelow le x y
  outwardsBelow : ∀ x y, x.isNaN = true → y.isNaN = true → x.isNegative = true →
    y.isNegative = true → y.magnitude < x.magnitude → RanksBelow le x y

variable {x y : Binary64}

theorem totalKey_of_nonnegative (h : x.isNegative = false) : x.totalKey = x.magnitude := by
  rw [totalKey, h]
  rfl

theorem totalKey_of_negative (h : x.isNegative = true) : x.totalKey = -(x.magnitude : Int) - 1 := by
  rw [totalKey, h]
  rfl

/-- The numeric order moves the negative values up by one place, onto the zero. -/
theorem numericKey_eq (x : Binary64) :
    x.numericKey = if x.isNegative then x.totalKey + 1 else x.totalKey := by
  unfold numericKey totalKey
  cases x.isNegative with
  | true => simp
  | false => rfl

theorem isNaN_iff : x.isNaN = true ↔ infinityMagnitude < x.magnitude := decide_eq_true_iff

theorem not_isNaN_iff : x.isNaN = false ↔ x.magnitude ≤ infinityMagnitude := by
  rw [← Bool.not_eq_true, isNaN_iff, Nat.not_lt]

/-- The numbers lie between the two infinities. -/
theorem totalKey_bounds (h : x.isNaN = false) :
    -(infinityMagnitude : Int) - 1 ≤ x.totalKey ∧ x.totalKey ≤ infinityMagnitude := by
  rw [not_isNaN_iff] at h
  cases hneg : x.isNegative with
  | true => rw [totalKey_of_negative hneg]; omega
  | false => rw [totalKey_of_nonnegative hneg]; omega

theorem ranksBelow_totalLe : RanksBelow totalLe x y ↔ x.totalKey < y.totalKey := by
  unfold RanksBelow totalLe
  rw [decide_eq_true_iff, decide_eq_false_iff_not]
  omega

/-- **The total order has its clauses.** -/
theorem ranksPatterns_totalLe : RanksPatterns totalLe where
  trans := totalLe_trans
  total := totalLe_total
  numbers x y h := by
    refine ranksBelow_totalLe.mpr (Int.not_le.mp fun hkey => ?_)
    exact Int.not_le.mpr (lt_iff.mp h).2.2 (numericKey_le_of_totalLe (totalLe_iff.mpr hkey))
  zeros := ranksBelow_totalLe.mpr (by decide)
  above x y hx hy hsign := by
    have hbounds := totalKey_bounds hx
    rw [isNaN_iff] at hy
    rw [ranksBelow_totalLe, totalKey_of_nonnegative hsign]
    omega
  below x y hx hy hsign := by
    have hbounds := totalKey_bounds hy
    rw [isNaN_iff] at hx
    rw [ranksBelow_totalLe, totalKey_of_negative hsign]
    omega
  outwards x y _ _ hx hy h := by
    rw [ranksBelow_totalLe, totalKey_of_nonnegative hx, totalKey_of_nonnegative hy]
    omega
  outwardsBelow x y _ _ hx hy h := by
    rw [ranksBelow_totalLe, totalKey_of_negative hx, totalKey_of_negative hy]
    omega

/-! ### Only the total order has them -/

/-- Only the zeros are told apart by the total order alone. -/
theorem zeros_of_numericKey_le (hkey : x.totalKey < y.totalKey)
    (hle : y.numericKey ≤ x.numericKey) : x = ofParts true 0 ∧ y = ofParts false 0 := by
  rw [numericKey_eq, numericKey_eq] at hle
  have hkeys : x.totalKey = -1 ∧ y.totalKey = 0 := by
    cases hx : x.isNegative with
    | true =>
        cases hy : y.isNegative with
        | true => simp only [hx, hy, if_true] at hle; omega
        | false =>
            have hxkey := totalKey_of_negative hx
            have hykey := totalKey_of_nonnegative hy
            simp only [hx, hy, if_true, Bool.false_eq_true, if_false] at hle
            omega
    | false =>
        cases hy : y.isNegative with
        | true =>
            have hxkey := totalKey_of_nonnegative hx
            have hykey := totalKey_of_negative hy
            omega
        | false => simp only [hx, hy, Bool.false_eq_true, if_false] at hle; omega
  exact ⟨totalKey_injective (hkeys.1.trans (by decide)),
    totalKey_injective (hkeys.2.trans (by decide))⟩

namespace RanksPatterns

variable {le : Binary64 → Binary64 → Bool}

theorem below_trans (h : RanksPatterns le) {z : Binary64} (hxy : RanksBelow le x y)
    (hyz : RanksBelow le y z) : RanksBelow le x z := by
  refine ⟨h.trans x y z hxy.1 hyz.1, Bool.eq_false_iff.mpr fun hzx => ?_⟩
  have hzy := h.trans z x y hzx hxy.1
  rw [hyz.2] at hzy
  cases hzy

/-- **The clauses leave nothing open.** -/
theorem below_of_totalKey_lt (h : RanksPatterns le) (hkey : x.totalKey < y.totalKey) :
    RanksBelow le x y := by
  cases hx : x.isNaN with
  | false =>
      have hbounds := totalKey_bounds hx
      cases hy : y.isNaN with
      | false =>
          by_cases hlt : x.numericKey < y.numericKey
          · exact h.numbers x y (lt_iff.mpr ⟨hx, hy, hlt⟩)
          · obtain ⟨rfl, rfl⟩ := zeros_of_numericKey_le hkey (Int.not_lt.mp hlt)
            exact h.zeros
      | true =>
          refine h.above x y hx hy (Bool.eq_false_iff.mpr fun hneg => ?_)
          rw [totalKey_of_negative hneg] at hkey
          rw [isNaN_iff] at hy
          omega
  | true =>
      cases hy : y.isNaN with
      | false =>
          have hbounds := totalKey_bounds hy
          refine h.below x y hx hy (Bool.of_not_eq_false fun hneg => ?_)
          rw [totalKey_of_nonnegative hneg] at hkey
          rw [isNaN_iff] at hx
          omega
      | true =>
          cases hxneg : x.isNegative with
          | true =>
              cases hyneg : y.isNegative with
              | true =>
                  rw [totalKey_of_negative hxneg, totalKey_of_negative hyneg] at hkey
                  exact h.outwardsBelow x y hx hy hxneg hyneg (by omega)
              | false =>
                  -- Zero lies between them.
                  exact h.below_trans (h.below x (ofParts false 0) hx (by decide) hxneg)
                    (h.above (ofParts false 0) y (by decide) hy hyneg)
          | false =>
              cases hyneg : y.isNegative with
              | true =>
                  rw [totalKey_of_nonnegative hxneg, totalKey_of_negative hyneg] at hkey
                  omega
              | false =>
                  rw [totalKey_of_nonnegative hxneg, totalKey_of_nonnegative hyneg] at hkey
                  exact h.outwards x y hx hy hxneg hyneg (by omega)

/-- **No other relation has the clauses.** -/
theorem eq_totalLe (h : RanksPatterns le) : le = totalLe := by
  funext x y
  rcases Int.lt_trichotomy x.totalKey y.totalKey with hlt | heq | hgt
  · rw [(h.below_of_totalKey_lt hlt).1, (ranksBelow_totalLe.mpr hlt).1]
  · obtain rfl := totalKey_injective heq
    have hself : ∀ {r : Binary64 → Binary64 → Bool}, RanksPatterns r → r x x = true :=
      fun hr => (Bool.or_self _).symm.trans (hr.total x x)
    rw [hself h, hself ranksPatterns_totalLe]
  · rw [(h.below_of_totalKey_lt hgt).2, (ranksBelow_totalLe.mpr hgt).2]

end RanksPatterns

/-! ### Sorted samples -/

/-- A list holds some patterns in the order of a relation, and no other list does. -/
structure SortsBy (le : Binary64 → Binary64 → Bool) (xs ranked : List Binary64) : Prop where
  perm : ranked.Perm xs
  pairwise : ranked.Pairwise fun x y => le x y = true
  only : ∀ zs, zs.Perm xs → (zs.Pairwise fun x y => le x y = true) → zs = ranked

theorem sortsBy_sorted (a : Arithmetic) (xs : List Binary64) :
    letI := a.scalar
    SortsBy totalLe xs (sorted xs) :=
  letI := a.scalar
  { perm := List.mergeSort_perm xs totalLe
    pairwise := ranked_sorted xs
    only := fun _ hperm hranked => eq_sorted hperm hranked }

/--
**A summary and the percentiles depend on which samples there are, and on nothing else.**

Samples are any patterns, and the operations are any.  There is one total order, in
it one list of the samples, and this is the list that sorting gives for every order
of them; equal results are equal bit by bit.
-/
theorem summary_eq_of_perm (a : Arithmetic) {xs ys : List Binary64} (h : xs.Perm ys) :
    letI := a.scalar
    (∃! le, RanksPatterns le) ∧ (∀ le, RanksPatterns le → SortsBy le xs (sorted xs)) ∧
    sorted ys = sorted xs ∧ Summary.ofSamples ys = Summary.ofSamples xs ∧
    ∀ p, percentile ys p = percentile xs p := by
  let _ := a.scalar
  refine ⟨⟨totalLe, ranksPatterns_totalLe, fun le hle => hle.eq_totalLe⟩, fun le hle => ?_,
    sorted_perm h.symm, summary_perm h.symm, percentile_perm h.symm⟩
  rw [hle.eq_totalLe]
  exact sortsBy_sorted a xs

/-- Both zeros, both infinities, and values of either sign that are not numbers. -/
def oddSamples : List Binary64 :=
  [quietNaN, ofParts false 0, negativeInfinity, ofParts true (infinityMagnitude + 1),
    ofParts true 0, ofParts false (infinityMagnitude + 3), infinity, ofParts false 1,
    ofParts true (infinityMagnitude + fractionCount / 2 + 3), ofParts false 0]

/-- The same samples in the total order. -/
def oddSamplesRanked : List Binary64 :=
  [ofParts true (infinityMagnitude + fractionCount / 2 + 3), ofParts true (infinityMagnitude + 1),
    negativeInfinity, ofParts true 0, ofParts false 0, ofParts false 0, ofParts false 1, infinity,
    ofParts false (infinityMagnitude + 3), quietNaN]

theorem summary_eq_of_perm_oddSamples :
    letI := Arithmetic.processor.scalar
    oddSamples.Perm oddSamples.reverse ∧ RanksPatterns totalLe ∧
    sorted oddSamples.reverse = oddSamplesRanked ∧
    Summary.ofSamples oddSamples.reverse = Summary.ofSamples oddSamples ∧
    ∀ p, percentile oddSamples.reverse p = percentile oddSamples p := by
  have h : oddSamples.Perm oddSamples.reverse := (List.reverse_perm _).symm
  obtain ⟨-, hsorts, hsorted, hsummary, hpercentile⟩ :=
    summary_eq_of_perm Arithmetic.processor h
  have hranked := (hsorts totalLe ranksPatterns_totalLe).only oddSamplesRanked (by decide)
    (by decide)
  exact ⟨h, ranksPatterns_totalLe, hsorted.trans hranked.symm, hsummary, hpercentile⟩

end RunCompare.Binary64
