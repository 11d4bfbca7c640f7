/-
Quantiles along the polygon through the samples.

The samples of a series, drawn over their positions, are joined by straight
lines, and a percentile is a point of this polygon.  A `Segment` is one of its
lines with a rank on it.  The code takes the two whole numbers next to the rank
and treats a whole rank apart; any line that reaches to the rank gives the same
point (`Segment.atRank_eq`), so two ranks between the same positions can be
compared on one line, and a whole rank on either of the two that meet there.

Of a sorted series no line falls, and so no percentile of a greater percentage
is less.  For this only the two series need to be sorted, not the samples as they
came: samples that are not greater, item by item, have percentiles that are not.

In exact arithmetic only.  Rounding can make a quantile leave its line.
-/
import RunCompare.Proofs.Stats.Sorting
import RunCompare.Stats.Summary

namespace RunCompare.Stats

open Scalar

/-! ### Lines between neighbours -/

/-- A rank of a series and the samples at the positions around it. -/
structure Segment (xs : List ℚ) (rank : ℚ) where
  lower : Nat
  low : ℚ
  high : ℚ
  low_at : xs[lower]? = some low
  high_at : xs[lower + 1]? = some high
  lower_le : (lower : ℚ) ≤ rank
  le_upper : rank ≤ lower + 1

namespace Segment

variable {xs ys : List ℚ} {rank rank' : ℚ}

/-- The point of the line above the rank. -/
def value (s : Segment xs rank) : ℚ := s.low + (rank - s.lower) * (s.high - s.low)

theorem lower_lt (s : Segment xs rank) : s.lower + 1 < xs.length :=
  (List.getElem?_eq_some_iff.mp s.high_at).1

/-- Every rank of a series of two samples or more lies on a line. -/
theorem nonempty (hlength : 2 ≤ xs.length) (hnonneg : 0 ≤ rank)
    (hle : rank ≤ (xs.length - 1 : Nat)) : Nonempty (Segment xs rank) := by
  have hfloor : (⌊rank⌋₊ : ℚ) ≤ rank := Nat.floor_le hnonneg
  by_cases h : ⌊rank⌋₊ + 1 < xs.length
  · exact ⟨⌊rank⌋₊, _, _, List.getElem?_eq_getElem (Nat.lt_of_succ_lt h),
      List.getElem?_eq_getElem h, hfloor, (Nat.lt_floor_add_one rank).le⟩
  · -- The greatest rank is on the last line.
    have hge : ((xs.length - 1 : Nat) : ℚ) ≤ rank :=
      le_trans (Nat.cast_le.mpr (by omega)) hfloor
    have hlast : ((xs.length - 2 : Nat) : ℚ) + 1 = (xs.length - 1 : Nat) := by
      have hsucc : xs.length - 2 + 1 = xs.length - 1 := by omega
      rw [← hsucc]
      exact (Nat.cast_succ _).symm
    refine ⟨xs.length - 2, _, _, List.getElem?_eq_getElem (by omega),
      List.getElem?_eq_getElem (by omega), ?_, ?_⟩
    · linarith
    · linarith

theorem value_of_eq_lower (s : Segment xs rank) (h : rank = s.lower) : s.value = s.low := by
  rw [value, sub_eq_zero.mpr h, zero_mul, add_zero]

theorem value_of_eq_upper (s : Segment xs rank) (h : rank = s.lower + 1) : s.value = s.high := by
  have hone : rank - s.lower = 1 := sub_eq_iff_eq_add'.mpr h
  rw [value, hone, one_mul, add_sub_cancel]

/-! ### Lines of a sorted series -/

theorem low_le_high (s : Segment xs rank) (h : xs.Pairwise (· ≤ ·)) : s.low ≤ s.high :=
  le_of_getElem? h s.low_at s.high_at (Nat.le_succ _)

theorem low_le_value (s : Segment xs rank) (h : xs.Pairwise (· ≤ ·)) : s.low ≤ s.value :=
  le_add_of_nonneg_right
    (mul_nonneg (sub_nonneg.mpr s.lower_le) (sub_nonneg.mpr (s.low_le_high h)))

theorem value_le_high (s : Segment xs rank) (h : xs.Pairwise (· ≤ ·)) : s.value ≤ s.high := by
  have hpart : rank - s.lower ≤ 1 := by linarith [s.le_upper]
  have hstep : (rank - s.lower) * (s.high - s.low) ≤ 1 * (s.high - s.low) :=
    mul_le_mul_of_nonneg_right hpart (sub_nonneg.mpr (s.low_le_high h))
  rw [value]
  linarith

/-- The sample at a position from the rank on is not below the line. -/
theorem value_le (s : Segment xs rank) (h : xs.Pairwise (· ≤ ·)) {k : Nat} {x : ℚ}
    (hx : xs[k]? = some x) (hk : rank ≤ k) : s.value ≤ x := by
  by_cases hupper : s.lower + 1 ≤ k
  · exact le_trans (s.value_le_high h) (le_of_getElem? h s.high_at hx hupper)
  · have hlower : k = s.lower := by
      have hle : s.lower ≤ k := by exact_mod_cast le_trans s.lower_le hk
      omega
    subst hlower
    have hlow : x = s.low := Option.some.inj (hx.symm.trans s.low_at)
    rw [s.value_of_eq_lower (le_antisymm hk s.lower_le), hlow]

/-- The sample at a position up to the rank is not above the line. -/
theorem le_value (s : Segment xs rank) (h : xs.Pairwise (· ≤ ·)) {k : Nat} {x : ℚ}
    (hx : xs[k]? = some x) (hk : k ≤ rank) : x ≤ s.value := by
  by_cases hlower : k ≤ s.lower
  · exact le_trans (le_of_getElem? h hx s.low_at hlower) (s.low_le_value h)
  · have hupper : k = s.lower + 1 := by
      have hle : k ≤ s.lower + 1 := by exact_mod_cast le_trans hk s.le_upper
      omega
    subst hupper
    have hhigh : x = s.high := Option.some.inj (hx.symm.trans s.high_at)
    have hrank : rank = s.lower + 1 := le_antisymm s.le_upper (by exact_mod_cast hk)
    rw [s.value_of_eq_upper hrank, hhigh]

end Segment

section

variable [OpenFunctions] {xs ys : List ℚ} {rank rank' : ℚ}

/-- **Any line that reaches to a rank has the sample at it.** -/
theorem Segment.atRank_eq (s : Segment xs rank) : atRank xs rank = some s.value := by
  have hnonneg : 0 ≤ rank := le_trans (Nat.cast_nonneg s.lower) s.lower_le
  show (if ⌊rank⌋₊ = ⌈rank⌉₊ then xs[⌊rank⌋₊]? else _) = _
  rcases eq_or_lt_of_le s.lower_le with heq | hlt
  · have hfloor : ⌊rank⌋₊ = s.lower := (congrArg Nat.floor heq.symm).trans (Nat.floor_natCast _)
    have hceil : ⌈rank⌉₊ = s.lower := (congrArg Nat.ceil heq.symm).trans (Nat.ceil_natCast _)
    rw [if_pos (hfloor.trans hceil.symm), hfloor, s.low_at, s.value_of_eq_lower heq.symm]
  rcases eq_or_lt_of_le s.le_upper with heq | hgt
  · have hcast : rank = ((s.lower + 1 : Nat) : ℚ) := heq.trans (Nat.cast_succ _).symm
    have hfloor : ⌊rank⌋₊ = s.lower + 1 := (congrArg Nat.floor hcast).trans (Nat.floor_natCast _)
    have hceil : ⌈rank⌉₊ = s.lower + 1 := (congrArg Nat.ceil hcast).trans (Nat.ceil_natCast _)
    rw [if_pos (hfloor.trans hceil.symm), hfloor, s.high_at, s.value_of_eq_upper heq]
  · have hfloor : ⌊rank⌋₊ = s.lower := (Nat.floor_eq_iff hnonneg).mpr ⟨s.lower_le, hgt⟩
    have hceil : ⌈rank⌉₊ = s.lower + 1 := (Nat.ceil_eq_iff (Nat.succ_ne_zero _)).mpr
      ⟨hlt, le_of_lt (lt_of_lt_of_eq hgt (Nat.cast_succ _).symm)⟩
    rw [if_neg (by rw [hfloor, hceil]; exact Nat.ne_of_lt (Nat.lt_succ_self _))]
    show (xs[⌊rank⌋₊]?.bind fun low => xs[⌈rank⌉₊]?.bind fun high =>
      some (low + (rank - (⌊rank⌋₊ : ℚ)) * (high - low))) = some s.value
    rw [hfloor, hceil, s.low_at, s.high_at]
    rfl

/-- **Along a sorted series the polygon does not fall.** -/
theorem Segment.value_mono (s : Segment xs rank) (s' : Segment xs rank')
    (h : xs.Pairwise (· ≤ ·)) (hle : rank ≤ rank') : s.value ≤ s'.value := by
  rcases Nat.lt_trichotomy s.lower s'.lower with hlt | heq | hgt
  · -- The sample at the end of the first line is at or before the start of the second.
    have hupper : ((s.lower + 1 : Nat) : ℚ) ≤ s'.lower := Nat.cast_le.mpr hlt
    refine le_trans (s.value_le h s'.low_at ?_) (s'.low_le_value h)
    exact le_trans s.le_upper (le_trans (Nat.cast_succ _).symm.le hupper)
  · have hlow : s'.low = s.low := Option.some.inj (s'.low_at.symm.trans (heq ▸ s.low_at))
    have hhigh : s'.high = s.high := Option.some.inj (s'.high_at.symm.trans (heq ▸ s.high_at))
    rw [value, value, hlow, hhigh, ← heq]
    have hstep : (rank - s.lower) * (s.high - s.low) ≤ (rank' - s.lower) * (s.high - s.low) :=
      mul_le_mul_of_nonneg_right (by linarith) (sub_nonneg.mpr (s.low_le_high h))
    linarith
  · -- The ranks are the one position where both lines meet.
    have hupper : ((s'.lower + 1 : Nat) : ℚ) ≤ s.lower := Nat.cast_le.mpr hgt
    rw [Nat.cast_succ] at hupper
    have hrank : rank = rank' :=
      le_antisymm hle (le_trans s'.le_upper (le_trans hupper s.lower_le))
    subst hrank
    exact le_of_eq (Option.some.inj (s.atRank_eq.symm.trans s'.atRank_eq))

/-! ### Percentiles -/

variable {p q : ℚ}

theorem isPercentage_iff : isPercentage p = true ↔ 0 ≤ p ∧ p ≤ 100 := by
  unfold isPercentage
  rw [Bool.and_eq_true, decide_eq_true_eq, decide_eq_true_eq, zero_eq]
  rfl

/-- A percentage of the greatest position is a rank. -/
theorem percentileRank_mem {n : Nat} (hp : 0 ≤ p) (hp' : p ≤ 100) :
    0 ≤ percentileRank n p ∧ percentileRank n p ≤ (n - 1 : Nat) := by
  have hpart : p / ((100 : Nat) : ℚ) ≤ 1 := by
    rw [div_le_one (by norm_num)]
    exact_mod_cast hp'
  exact ⟨mul_nonneg (div_nonneg hp (Nat.cast_nonneg _)) (Nat.cast_nonneg _),
    mul_le_of_le_one_left (Nat.cast_nonneg _) hpart⟩

theorem percentileRank_mono {n : Nat} (hpq : p ≤ q) : percentileRank n p ≤ percentileRank n q :=
  mul_le_mul_of_nonneg_right (div_le_div_of_nonneg_right hpq (Nat.cast_nonneg _))
    (Nat.cast_nonneg _)

theorem percentileOfSorted_of_not (h : ¬ (0 ≤ p ∧ p ≤ 100)) : percentileOfSorted xs p = none := by
  unfold percentileOfSorted
  rw [Bool.eq_false_iff.mpr (mt isPercentage_iff.mp h)]
  rfl

theorem percentileOfSorted_singleton (x : ℚ) (hp : 0 ≤ p) (hp' : p ≤ 100) :
    percentileOfSorted [x] p = some x := by
  unfold percentileOfSorted
  rw [isPercentage_iff.mpr ⟨hp, hp'⟩]
  rfl

/-- A percentile of two samples or more is the sample at its rank. -/
theorem percentileOfSorted_eq_atRank (hlength : 2 ≤ xs.length) (hp : 0 ≤ p) (hp' : p ≤ 100) :
    percentileOfSorted xs p = atRank xs (percentileRank xs.length p) := by
  unfold percentileOfSorted
  rw [isPercentage_iff.mpr ⟨hp, hp'⟩]
  match xs, hlength with
  | x :: y :: rest, _ => rfl

/-- A percentile of two samples or more lies on a line between neighbours. -/
theorem exists_segment (hlength : 2 ≤ xs.length) (hp : 0 ≤ p) (hp' : p ≤ 100) :
    ∃ s : Segment xs (percentileRank xs.length p), percentileOfSorted xs p = some s.value := by
  obtain ⟨hnonneg, hle⟩ := percentileRank_mem (n := xs.length) hp hp'
  obtain ⟨s⟩ := Segment.nonempty hlength hnonneg hle
  exact ⟨s, (percentileOfSorted_eq_atRank hlength hp hp').trans s.atRank_eq⟩

omit [OpenFunctions] in
/-- A series with a single sample, or with more. -/
theorem singleton_or_two_le (h : xs ≠ []) : (∃ x, xs = [x]) ∨ 2 ≤ xs.length := by
  match xs, h with
  | [x], _ => exact Or.inl ⟨x, rfl⟩
  | x :: y :: rest, _ => exact Or.inr (Nat.le_add_left 2 _)

/-- A percentile whose rank is a position is the sample there. -/
theorem percentileOfSorted_of_position (h : xs ≠ []) (hp : 0 ≤ p) (hp' : p ≤ 100) {k : Nat}
    (hk : percentileRank xs.length p = k) (hlt : k < xs.length) :
    percentileOfSorted xs p = xs[k]? := by
  rcases singleton_or_two_le h with ⟨x, rfl⟩ | hlength
  · have hzero : k = 0 := Nat.lt_one_iff.mp hlt
    rw [percentileOfSorted_singleton x hp hp', hzero]
    rfl
  · rw [percentileOfSorted_eq_atRank hlength hp hp', hk]
    show (if ⌊(k : ℚ)⌋₊ = ⌈(k : ℚ)⌉₊ then xs[⌊(k : ℚ)⌋₊]? else _) = _
    rw [Nat.floor_natCast, Nat.ceil_natCast, if_pos rfl]

/-- **Percentiles of a sorted series do not fall.** -/
theorem percentileOfSorted_mono (h : xs.Pairwise (· ≤ ·)) (hne : xs ≠ []) (hp : 0 ≤ p)
    (hpq : p ≤ q) (hq : q ≤ 100) :
    ∃ u v, percentileOfSorted xs p = some u ∧ percentileOfSorted xs q = some v ∧ u ≤ v := by
  rcases singleton_or_two_le hne with ⟨x, rfl⟩ | hlength
  · exact ⟨x, x, percentileOfSorted_singleton x hp (hpq.trans hq),
      percentileOfSorted_singleton x (hp.trans hpq) hq, le_refl x⟩
  · obtain ⟨s, hs⟩ := exists_segment hlength hp (hpq.trans hq)
    obtain ⟨s', hs'⟩ := exists_segment hlength (hp.trans hpq) hq
    exact ⟨s.value, s'.value, hs, hs', s.value_mono s' h (percentileRank_mono hpq)⟩

/-- The least and the greatest sample are the first and the last percentile. -/
theorem percentileOfSorted_ends (h : xs.Pairwise (· ≤ ·)) (hne : xs ≠ []) :
    ∃ least greatest, percentileOfSorted xs 0 = some least ∧
      percentileOfSorted xs 100 = some greatest ∧
      IsLeast {x | x ∈ xs} least ∧ IsGreatest {x | x ∈ xs} greatest := by
  have hlength : 0 < xs.length := List.length_pos_of_ne_nil hne
  have hzero : percentileRank xs.length (0 : ℚ) = (0 : Nat) := by
    rw [percentileRank, zero_div, zero_mul, Nat.cast_zero]
  have hwhole : percentileRank xs.length (100 : ℚ) = (xs.length - 1 : Nat) := by
    rw [percentileRank, Nat.cast_ofNat, div_self (by norm_num), one_mul]
  have hfirst := List.getElem?_eq_getElem hlength
  have hlast := List.getElem?_eq_getElem (Nat.sub_one_lt_of_lt hlength)
  refine ⟨_, _, (percentileOfSorted_of_position hne (by norm_num) (by norm_num) hzero hlength).trans
    hfirst, (percentileOfSorted_of_position hne (by norm_num) (by norm_num) hwhole
      (Nat.sub_one_lt_of_lt hlength)).trans hlast, ⟨?_, ?_⟩, ?_, ?_⟩
  · exact List.mem_of_getElem? hfirst
  · intro x hx
    obtain ⟨i, hi⟩ := List.mem_iff_getElem?.mp hx
    exact le_of_getElem? h hfirst hi (Nat.zero_le i)
  · exact List.mem_of_getElem? hlast
  · intro x hx
    obtain ⟨i, hi⟩ := List.mem_iff_getElem?.mp hx
    have hlt : i < xs.length := (List.getElem?_eq_some_iff.mp hi).1
    exact le_of_getElem? h hi hlast (Nat.le_sub_one_of_lt hlt)

omit [OpenFunctions] in
/-- A point between two samples rises with both of them. -/
theorem Segment.exists_le (s : Segment xs rank) (h : List.Forall₂ (· ≤ ·) xs ys) :
    ∃ s' : Segment ys rank, s.value ≤ s'.value := by
  have hupper : s.lower + 1 < ys.length := h.length_eq ▸ s.lower_lt
  have hlow := List.getElem?_eq_getElem (Nat.lt_of_succ_lt hupper)
  have hhigh := List.getElem?_eq_getElem hupper
  refine ⟨⟨s.lower, _, _, hlow, hhigh, s.lower_le, s.le_upper⟩, ?_⟩
  have hbefore : s.value = (1 - (rank - s.lower)) * s.low + (rank - s.lower) * s.high := by
    rw [value]
    ring
  have hlow_le := mul_le_mul_of_nonneg_left (rel_of_forall₂ h s.low_at hlow)
    (by linarith [s.le_upper] : 0 ≤ 1 - (rank - s.lower))
  have hhigh_le := mul_le_mul_of_nonneg_left (rel_of_forall₂ h s.high_at hhigh)
    (sub_nonneg.mpr s.lower_le)
  rw [hbefore, value]
  linarith

/-- **Samples that are not greater, position by position, have percentiles that are not.** -/
theorem percentileOfSorted_le_of_forall₂ (h : List.Forall₂ (· ≤ ·) xs ys) (p : ℚ) :
    Option.Rel (· ≤ ·) (percentileOfSorted xs p) (percentileOfSorted ys p) := by
  by_cases hp : 0 ≤ p ∧ p ≤ 100
  · by_cases hne : xs = []
    · subst hne
      cases h
      rw [percentileOfSorted_nil]
      exact Option.Rel.none
    rcases singleton_or_two_le hne with ⟨x, rfl⟩ | hlength
    · obtain _ | ⟨hxy, hrest⟩ := h
      cases hrest
      rw [percentileOfSorted_singleton _ hp.1 hp.2, percentileOfSorted_singleton _ hp.1 hp.2]
      exact Option.Rel.some hxy
    · obtain ⟨s, hs⟩ := exists_segment hlength hp.1 hp.2
      obtain ⟨s', hle⟩ := s.exists_le h
      have hs' : percentileOfSorted ys p = some s'.value := by
        rw [percentileOfSorted_eq_atRank (h.length_eq ▸ hlength) hp.1 hp.2, ← h.length_eq,
          s'.atRank_eq]
      rw [hs, hs']
      exact Option.Rel.some hle
  · rw [percentileOfSorted_of_not hp, percentileOfSorted_of_not hp]
    exact Option.Rel.none

/-! ### Percentiles of samples -/

/-- How the percentiles of samples lie to each other and to the samples. -/
structure OrderedPercentiles (xs : List ℚ) (least greatest : ℚ) : Prop where
  isLeast : IsLeast {x | x ∈ xs} least
  isGreatest : IsGreatest {x | x ∈ xs} greatest
  first : percentile xs 0 = some least
  last : percentile xs 100 = some greatest
  /-- Every percentage has a percentile, and a greater one has none that is less. -/
  rise : ∀ p q, 0 ≤ p → p ≤ q → q ≤ 100 → ∃ u v, percentile xs p = some u ∧
    percentile xs q = some v ∧ least ≤ u ∧ u ≤ v ∧ v ≤ greatest
  quartiles : ∃ q1 median q3, (Summary.ofSamples xs).q1 = some q1 ∧
    (Summary.ofSamples xs).median = some median ∧ (Summary.ofSamples xs).q3 = some q3 ∧
    q1 ≤ median ∧ median ≤ q3

theorem percentile_mono (h : xs ≠ []) (hp : 0 ≤ p) (hpq : p ≤ q) (hq : q ≤ 100) :
    ∃ u v, percentile xs p = some u ∧ percentile xs q = some v ∧ u ≤ v :=
  percentileOfSorted_mono (pairwise_sorted xs) (sorted_ne_nil h) hp hpq hq

theorem exists_orderedPercentiles (h : xs ≠ []) :
    ∃ least greatest, OrderedPercentiles xs least greatest := by
  obtain ⟨least, greatest, hfirst, hlast, hleast, hgreatest⟩ :=
    percentileOfSorted_ends (pairwise_sorted xs) (sorted_ne_nil h)
  have hmem : {x | x ∈ sorted xs} = {x | x ∈ xs} := Set.ext fun x => (sorted_perm_self xs).mem_iff
  rw [hmem] at hleast hgreatest
  refine ⟨least, greatest, hleast, hgreatest, hfirst, hlast, fun p q hp hpq hq => ?_, ?_⟩
  · obtain ⟨u, v, hu, hv, huv⟩ := percentile_mono h hp hpq hq
    obtain ⟨least', u', hleast', hu', hle⟩ := percentile_mono h (le_refl 0) hp (hpq.trans hq)
    obtain ⟨v', greatest', hv', hgreatest', hge⟩ :=
      percentile_mono h (hp.trans hpq) hq (le_refl 100)
    cases hfirst.symm.trans hleast'
    cases hlast.symm.trans hgreatest'
    cases hu.symm.trans hu'
    cases hv.symm.trans hv'
    exact ⟨u, v, hu, hv, hle, huv, hge⟩
  · obtain ⟨q1, median, hq1, hmedian, hle⟩ :=
      percentile_mono h (p := (25 : Nat)) (q := (50 : Nat)) (by norm_num) (by norm_num)
        (by norm_num)
    obtain ⟨median', q3, hmedian', hq3, hge⟩ :=
      percentile_mono h (p := (50 : Nat)) (q := (75 : Nat)) (by norm_num) (by norm_num)
        (by norm_num)
    cases hmedian.symm.trans hmedian'
    exact ⟨q1, median, q3, hq1, hmedian, hq3, hle, hge⟩

/--
**Percentiles rise with the percentage and with the samples.**

They start at the least sample and end at the greatest.  Samples may be raised
one by one, past each other, and no percentile falls.
-/
theorem percentile_ordered (xs : List ℚ) :
    (xs ≠ [] → ∃ least greatest, OrderedPercentiles xs least greatest) ∧
      ∀ ys, List.Forall₂ (· ≤ ·) xs ys →
        ∀ p, Option.Rel (· ≤ ·) (percentile xs p) (percentile ys p) :=
  ⟨exists_orderedPercentiles, fun _ hle => percentileOfSorted_le_of_forall₂ (forall₂_sorted hle)⟩

end

/-- Samples before and after some of them are raised, two of them past the others. -/
def raisedSamples : List ℚ × List ℚ := ([7, 1, 4, 1, 5 / 2], [7, 9, 4, 6, 5 / 2])

theorem percentile_ordered_raisedSamples :
    letI := OpenFunctions.rational
    raisedSamples.1 ≠ [] ∧ List.Forall₂ (· ≤ ·) raisedSamples.1 raisedSamples.2 ∧
    (∃ least greatest, OrderedPercentiles raisedSamples.1 least greatest) ∧
    ∀ p, Option.Rel (· ≤ ·) (percentile raisedSamples.1 p) (percentile raisedSamples.2 p) := by
  let _ : OpenFunctions := OpenFunctions.rational
  have hne : raisedSamples.1 ≠ [] := List.cons_ne_nil _ _
  have hle : List.Forall₂ (· ≤ ·) raisedSamples.1 raisedSamples.2 := by
    simp only [raisedSamples, List.forall₂_cons, List.forall₂_nil_left_iff]
    norm_num
  obtain ⟨hordered, hraised⟩ := percentile_ordered raisedSamples.1
  exact ⟨hne, hle, hordered hne, hraised raisedSamples.2 hle⟩

end RunCompare.Stats
