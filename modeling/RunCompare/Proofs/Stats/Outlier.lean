/-
What the outlier filter keeps.

Each fence lies on the far side of its quartile, because the first quartile is
not above the third, and a quartile lies between the samples next to its rank.
The samples from the rank of the first quartile to that of the third are
therefore inside the fences, whatever their spacing and however many are equal.
What lies inside two bounds is a block of the sorted series, and this one has
all these positions.
-/
import RunCompare.Proofs.Stats.Quantile

namespace RunCompare.Stats

open Scalar

/-! ### The fences -/

/-- A series that is long enough has its fences around its quartiles. -/
theorem detect_of_quartiles {α : Type} [Scalar α] {xs : List α} {q1 q3 : α}
    (hlength : leastSamplesWithOutliers ≤ xs.length) (hq1 : lowerQuartile (sorted xs) = some q1)
    (hq3 : upperQuartile (sorted xs) = some q3) :
    Outliers.detect xs = some ⟨Outliers.positionsOutside (Fences.around q1 q3) xs,
      Fences.around q1 q3, q1, q3, q3 - q1⟩ := by
  unfold Outliers.detect
  rw [if_neg (Nat.not_lt.mpr hlength), hq1, hq3]
  rfl

section

variable [OpenFunctions] {xs : List ℚ}

theorem holds_between (lower upper x : ℚ) :
    (Fences.between lower upper).holds x = true ↔ lower ≤ x ∧ x ≤ upper := by
  unfold Fences.holds
  rw [Bool.and_eq_true, decide_eq_true_eq, decide_eq_true_eq]

/-- Bounds around all samples from the rank of the first quartile to that of the third. -/
structure EncloseMiddle (xs : List ℚ) (lower upper : ℚ) : Prop where
  lower_le : ∀ {k : Nat} {x : ℚ}, (sorted xs)[k]? = some x →
    ((xs.length : ℚ) - 1) / 4 ≤ k → lower ≤ x
  le_upper : ∀ {k : Nat} {x : ℚ}, (sorted xs)[k]? = some x →
    k ≤ 3 * ((xs.length : ℚ) - 1) / 4 → x ≤ upper

/-- **The fences of a series that is long enough enclose its middle.** -/
theorem exists_fences (hlength : 4 ≤ xs.length) : ∃ o lower upper,
    Outliers.detect xs = some o ∧ o.fences = .between lower upper ∧
      EncloseMiddle xs lower upper := by
  have hsorted := pairwise_sorted xs
  have htwo : 2 ≤ (sorted xs).length := by
    rw [length_sorted]
    omega
  obtain ⟨s1, hq1⟩ := exists_segment (p := (25 : Nat)) htwo (by norm_num) (by norm_num)
  obtain ⟨s3, hq3⟩ := exists_segment (p := (75 : Nat)) htwo (by norm_num) (by norm_num)
  have hrank : ∀ p : ℚ, percentileRank (sorted xs).length p = p / 100 * ((xs.length : ℚ) - 1) := by
    intro p
    rw [percentileRank, length_sorted, Nat.cast_sub (by omega), Nat.cast_one, Nat.cast_ofNat]
  have hiqr : s1.value ≤ s3.value := s1.value_mono s3 hsorted (percentileRank_mono (by norm_num))
  have hdistance : (0 : ℚ) ≤ fenceDistance * (s3.value - s1.value) :=
    mul_nonneg (by norm_num [fenceDistance]) (sub_nonneg.mpr hiqr)
  refine ⟨_, _, _, detect_of_quartiles hlength hq1 hq3, rfl, fun hx hk => ?_, fun hx hk => ?_⟩
  · refine (sub_le_self _ hdistance).trans (s1.value_le hsorted hx (le_trans (le_of_eq ?_) hk))
    rw [hrank]
    norm_num
    ring
  · refine (s3.le_value hsorted hx (hk.trans (le_of_eq ?_))).trans
      (le_add_of_nonneg_right hdistance)
    rw [hrank]
    norm_num
    ring

/-! ### The samples inside -/

/-- The samples that are not above the upper of two bounds, but below the lower one. -/
def belowFences (lower upper : ℚ) (xs : List ℚ) : List ℚ :=
  (xs.filter fun x => decide (x ≤ upper)).filter fun x => decide (x < lower)

/-- The samples above a bound. -/
def aboveFences (upper : ℚ) (xs : List ℚ) : List ℚ := xs.filter fun x => !decide (x ≤ upper)

/-- **The samples inside two bounds are a block of a sorted series.** -/
theorem belowFences_append_aboveFences (h : xs.Pairwise (· ≤ ·)) (lower upper : ℚ) :
    belowFences lower upper xs ++ xs.filter (Fences.between lower upper).holds ++
      aboveFences upper xs = xs := by
  have hinside : xs.filter (Fences.between lower upper).holds =
      (xs.filter fun x => decide (x ≤ upper)).filter fun x => !decide (x < lower) := by
    rw [List.filter_filter]
    refine List.filter_congr fun x _ => ?_
    rw [Bool.eq_iff_iff, holds_between, Bool.and_eq_true, Bool.not_eq_true',
      decide_eq_false_iff_not, not_lt, decide_eq_true_eq]
  rw [hinside, belowFences, filter_append_others (comesFirst_lt (h.filter _) lower), aboveFences,
    filter_append_others (comesFirst_le h upper)]

omit [OpenFunctions] in
theorem length_belowFences_le (h : xs.Pairwise (· ≤ ·)) {lower : ℚ} (upper : ℚ) {k : Nat} {x : ℚ}
    (hx : xs[k]? = some x) (hlower : lower ≤ x) : (belowFences lower upper xs).length ≤ k := by
  rw [belowFences, ← List.countP_eq_length_filter]
  exact Nat.le_trans List.filter_sublist.countP_le (countP_lt_le h hx hlower)

omit [OpenFunctions] in
theorem add_length_aboveFences_lt (h : xs.Pairwise (· ≤ ·)) {upper : ℚ} {k : Nat} {x : ℚ}
    (hx : xs[k]? = some x) (hupper : x ≤ upper) :
    k + (aboveFences upper xs).length < xs.length := by
  have hcount := lt_countP_le h hx hupper
  have hall := congrArg List.length (filter_append_others (comesFirst_le h upper))
  rw [List.length_append, ← List.countP_eq_length_filter] at hall
  rw [aboveFences]
  omega

theorem not_holds_of_mem {lower upper x : ℚ}
    (h : x ∈ belowFences lower upper xs ++ aboveFences upper xs) :
    ¬ (Fences.between lower upper).holds x = true := by
  rw [holds_between]
  rintro ⟨hge, hle⟩
  rcases List.mem_append.mp h with h | h
  · exact not_lt.mpr hge (of_decide_eq_true (List.mem_filter.mp h).2)
  · have hlt := (List.mem_filter.mp h).2
    rw [Bool.not_eq_true', decide_eq_false_iff_not] at hlt
    exact hlt hle

/-- What the filter keeps of samples, as a part of the sorted series. -/
structure KeepsBlock (xs below above : List ℚ) : Prop where
  /-- The samples that are kept stand side by side in the sorted series. -/
  sorted_eq : sorted xs = below ++ sorted (withoutOutliers xs) ++ above
  /-- Of equal samples all are kept, or none. -/
  together : ∀ x ∈ below ++ above, x ∉ withoutOutliers xs
  /-- The samples between the ranks of the quartiles are kept. -/
  middle : ∀ k : Nat, ⌈((xs.length : ℚ) - 1) / 4⌉₊ ≤ k → k ≤ ⌊3 * ((xs.length : ℚ) - 1) / 4⌋₊ →
    below.length ≤ k ∧ k < below.length + (withoutOutliers xs).length
  nonempty : withoutOutliers xs ≠ []
  below_le : below.length ≤ ⌈((xs.length : ℚ) - 1) / 4⌉₊
  above_le : above.length ≤ ⌈((xs.length : ℚ) - 1) / 4⌉₊

omit [OpenFunctions] in
/-- The whole ranks between the quartiles of `n` samples: there is one, and as many positions lie
before them as after. -/
theorem quartile_positions {n : Nat} (h : 4 ≤ n) :
    ⌈((n : ℚ) - 1) / 4⌉₊ ≤ ⌊3 * ((n : ℚ) - 1) / 4⌋₊ ∧ ⌊3 * ((n : ℚ) - 1) / 4⌋₊ < n ∧
      n ≤ ⌈((n : ℚ) - 1) / 4⌉₊ + ⌊3 * ((n : ℚ) - 1) / 4⌋₊ + 1 := by
  have hn : (4 : ℚ) ≤ n := by exact_mod_cast h
  have hfirst : (⌈((n : ℚ) - 1) / 4⌉₊ : ℚ) < ((n : ℚ) - 1) / 4 + 1 :=
    Nat.ceil_lt_add_one (by linarith)
  have hfirst' := Nat.le_ceil (((n : ℚ) - 1) / 4)
  have hthird : (⌊3 * ((n : ℚ) - 1) / 4⌋₊ : ℚ) ≤ 3 * ((n : ℚ) - 1) / 4 :=
    Nat.floor_le (by linarith)
  have hthird' := Nat.lt_floor_add_one (3 * ((n : ℚ) - 1) / 4)
  set k₁ := ⌈((n : ℚ) - 1) / 4⌉₊
  set k₃ := ⌊3 * ((n : ℚ) - 1) / 4⌋₊
  have hle : 4 * k₁ < n + 3 := by
    have hcast : (4 * k₁ : ℚ) < n + 3 := by linarith
    exact_mod_cast hcast
  have hge : 3 * n < 4 * k₃ + 7 := by
    have hcast : (3 * n : ℚ) < 4 * k₃ + 7 := by linarith
    exact_mod_cast hcast
  have hlt : k₃ < n := by
    have hcast : (k₃ : ℚ) < n := by linarith
    exact_mod_cast hcast
  have hsum : n < k₁ + k₃ + 2 := by
    have hcast : (n : ℚ) < k₁ + k₃ + 2 := by linarith
    exact_mod_cast hcast
  omega

/-- **The samples inside bounds that enclose the middle are a block with the middle.** -/
theorem keepsBlock_of_enclose {lower upper : ℚ} (hlength : 4 ≤ xs.length)
    (hkept : withoutOutliers xs = xs.filter (Fences.between lower upper).holds)
    (h : EncloseMiddle xs lower upper) :
    KeepsBlock xs (belowFences lower upper (sorted xs)) (aboveFences upper (sorted xs)) := by
  obtain ⟨hmiddle, hlast, hcover⟩ := quartile_positions hlength
  have hsorted := pairwise_sorted xs
  have hat : ∀ k < xs.length, ∃ x, (sorted xs)[k]? = some x := fun k hk =>
    ⟨_, List.getElem?_eq_getElem (by rwa [length_sorted])⟩
  have hblock := belowFences_append_aboveFences hsorted lower upper
  rw [← sorted_filter, ← hkept] at hblock
  have hparts := congrArg List.length hblock
  rw [List.length_append, List.length_append, length_sorted, length_sorted] at hparts
  obtain ⟨x, hx⟩ := hat _ (Nat.lt_of_le_of_lt hmiddle hlast)
  have hbelow := length_belowFences_le hsorted upper hx (h.lower_le hx (Nat.le_ceil _))
  obtain ⟨y, hy⟩ := hat _ hlast
  have hgreatest : (0 : ℚ) ≤ (xs.length : ℚ) - 1 := by
    rw [sub_nonneg, Nat.one_le_cast]
    omega
  have habove := add_length_aboveFences_lt hsorted hy
    (h.le_upper hy (Nat.floor_le (div_nonneg (mul_nonneg (by norm_num) hgreatest) (by norm_num))))
  rw [length_sorted] at habove
  refine ⟨hblock.symm, fun x hx hmem => ?_, fun k hk hk' => by omega, ?_, hbelow, by omega⟩
  · rw [hkept] at hmem
    exact not_holds_of_mem hx (List.mem_filter.mp hmem).2
  · rw [← List.length_pos_iff]
    omega

/--
**The filter keeps a block of the sorted samples, with at least the middle half.**
-/
theorem withoutOutliers_keepsBlock (xs : List ℚ) (h : 4 ≤ xs.length) :
    ∃ below above, KeepsBlock xs below above := by
  obtain ⟨o, lower, upper, hdetect, hfences, henclose⟩ := exists_fences h
  refine ⟨_, _, keepsBlock_of_enclose h ?_ henclose⟩
  exact hfences ▸ withoutOutliers_eq_filter (fun x _ => le_refl x) hdetect

end

/-- Outliers on both sides, one of them twice, and equal samples inside. -/
def scatteredSamples : List ℚ := [3, 100, 1, 2, 3, -50, 2, 100]

theorem withoutOutliers_keepsBlock_scatteredSamples :
    letI := OpenFunctions.rational
    4 ≤ scatteredSamples.length ∧ ∃ below above, KeepsBlock scatteredSamples below above := by
  let _ : OpenFunctions := OpenFunctions.rational
  have hlength : 4 ≤ scatteredSamples.length := by decide
  exact ⟨hlength, withoutOutliers_keepsBlock scatteredSamples hlength⟩

end RunCompare.Stats
