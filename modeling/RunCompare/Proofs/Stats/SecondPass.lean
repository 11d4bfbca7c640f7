/-
The outlier filter on its own output.

What the filter keeps lies inside the fences of the series that it was given.  The
samples that it drops had their part in the quartiles, so what is kept has fences of
its own, and these can be closer: one far sample stretches the fences of all around a
second one, which is outside once the first is gone.  The kept samples lie inside
their own fences exactly if the filter leaves them as they are.
-/
import RunCompare.Proofs.Stats.Range

namespace RunCompare.Stats

open Scalar

/-! ### One pass -/

section

variable [OpenFunctions] {xs ys : List ℚ} {q1 q3 : ℚ}

/-- Every value of `ys` lies between the fences around the quartiles of `base`. -/
def WithinFencesOf (base ys : List ℚ) : Prop :=
  ∃ q1 q3, lowerQuartile (sorted base) = some q1 ∧ upperQuartile (sorted base) = some q3 ∧
    ∀ y ∈ ys, q1 - 3 / 2 * (q3 - q1) ≤ y ∧ y ≤ q3 + 3 / 2 * (q3 - q1)

theorem holds_around (x : ℚ) : (Fences.around q1 q3).holds x = true ↔
    q1 - 3 / 2 * (q3 - q1) ≤ x ∧ x ≤ q3 + 3 / 2 * (q3 - q1) :=
  holds_between _ _ x

/-- With the quartiles at hand, the fences are the ones around them. -/
theorem withinFencesOf_iff (hq1 : lowerQuartile (sorted xs) = some q1)
    (hq3 : upperQuartile (sorted xs) = some q3) :
    WithinFencesOf xs ys ↔ ∀ y ∈ ys, (Fences.around q1 q3).holds y = true := by
  constructor
  · rintro ⟨q1', q3', hq1', hq3', hinside⟩ y hy
    rw [hq1] at hq1'
    rw [hq3] at hq3'
    cases hq1'
    cases hq3'
    exact (holds_around y).mpr (hinside y hy)
  · intro hinside
    exact ⟨q1, q3, hq1, hq3, fun y hy => (holds_around y).mp (hinside y hy)⟩

theorem exists_quartiles (h : 4 ≤ xs.length) :
    ∃ q1 q3, lowerQuartile (sorted xs) = some q1 ∧ upperQuartile (sorted xs) = some q3 := by
  have htwo : 2 ≤ (sorted xs).length := by
    rw [length_sorted]
    omega
  obtain ⟨s1, hq1⟩ := exists_segment (p := (25 : Nat)) htwo (by norm_num) (by norm_num)
  obtain ⟨s3, hq3⟩ := exists_segment (p := (75 : Nat)) htwo (by norm_num) (by norm_num)
  exact ⟨s1.value, s3.value, hq1, hq3⟩

/-- What the filter keeps of a series that is long enough, by its quartiles. -/
theorem withoutOutliers_eq_around (h : 4 ≤ xs.length) (hq1 : lowerQuartile (sorted xs) = some q1)
    (hq3 : upperQuartile (sorted xs) = some q3) :
    withoutOutliers xs = xs.filter (Fences.around q1 q3).holds :=
  withoutOutliers_eq_filter (fun x _ => le_refl x) (detect_of_quartiles h hq1 hq3)

/-- **The filter leaves exactly the series that lie inside their own fences.** -/
theorem withoutOutliers_eq_self_iff (h : 4 ≤ xs.length) :
    withoutOutliers xs = xs ↔ WithinFencesOf xs xs := by
  obtain ⟨q1, q3, hq1, hq3⟩ := exists_quartiles h
  rw [withoutOutliers_eq_around h hq1 hq3, List.filter_eq_self, withinFencesOf_iff hq1 hq3]

/-! ### The second pass -/

/-- What one pass of the filter says of its output, and what it leaves to a second pass. -/
structure FilteredOnce (xs : List ℚ) : Prop where
  /-- The fences that the output lies inside are those of the given series. -/
  kept : WithinFencesOf xs (withoutOutliers xs)
  dropped : ∀ x ∈ xs, x ∉ withoutOutliers xs → ¬ WithinFencesOf xs [x]
  /-- A second pass changes nothing exactly if the output lies inside its own fences as well. -/
  again_iff : withoutOutliers (withoutOutliers xs) = withoutOutliers xs ↔
    WithinFencesOf (withoutOutliers xs) (withoutOutliers xs)

/--
**What the filter keeps lies inside the fences of the series it was given.**

It lies inside its own fences exactly if filtering it again changes nothing.
-/
theorem withoutOutliers_filteredOnce (xs : List ℚ) (h : 4 ≤ xs.length)
    (hkept : 4 ≤ (withoutOutliers xs).length) : FilteredOnce xs := by
  obtain ⟨q1, q3, hq1, hq3⟩ := exists_quartiles h
  have hfilter := withoutOutliers_eq_around h hq1 hq3
  refine ⟨?_, fun x hx hnot hinside => hnot ?_, withoutOutliers_eq_self_iff hkept⟩
  · rw [withinFencesOf_iff hq1 hq3, hfilter]
    exact fun x hx => (List.mem_filter.mp hx).2
  · rw [withinFencesOf_iff hq1 hq3, List.forall_mem_singleton] at hinside
    rw [hfilter]
    exact List.mem_filter.mpr ⟨hx, hinside⟩

end

/-! ### Fences that close in -/

/-- Samples of which the last one stretches the fences around the one before. -/
def stretchedSamples : List ℚ := [10, 11, 12, 13, 18, 100]

section

variable [OpenFunctions]

/-- The quartiles of a series that is given in order. -/
theorem quartiles_of_segments (xs : List ℚ) (hsorted : xs.Pairwise (· ≤ ·)) (h : 4 ≤ xs.length)
    (s1 : Segment xs (percentileRank xs.length (25 : Nat)))
    (s3 : Segment xs (percentileRank xs.length (75 : Nat))) :
    lowerQuartile (sorted xs) = some s1.value ∧ upperQuartile (sorted xs) = some s3.value := by
  have hself : sorted xs = xs := List.mergeSort_of_pairwise (hsorted.imp totalLe_iff.mpr)
  rw [hself]
  constructor
  · exact (percentileOfSorted_eq_atRank (by omega) (by norm_num) (by norm_num)).trans s1.atRank_eq
  · exact (percentileOfSorted_eq_atRank (by omega) (by norm_num) (by norm_num)).trans s3.atRank_eq

/-- The first pass only drops the last sample. -/
theorem withoutOutliers_stretchedSamples :
    withoutOutliers stretchedSamples = [10, 11, 12, 13, 18] := by
  obtain ⟨hq1, hq3⟩ := quartiles_of_segments stretchedSamples (by decide) (by decide)
    ⟨1, 11, 12, rfl, rfl, by norm_num [percentileRank, stretchedSamples],
      by norm_num [percentileRank, stretchedSamples]⟩
    ⟨3, 13, 18, rfl, rfl, by norm_num [percentileRank, stretchedSamples],
      by norm_num [percentileRank, stretchedSamples]⟩
  rw [withoutOutliers_eq_around (by decide) hq1 hq3]
  norm_num [stretchedSamples, List.filter_cons, holds_around, Segment.value, percentileRank]

theorem four_le_length_stretchedSamples : 4 ≤ (withoutOutliers stretchedSamples).length := by
  rw [withoutOutliers_stretchedSamples]
  decide

/-- What it keeps has closer fences, and one more sample lies outside of these. -/
theorem not_withinFencesOf_stretchedSamples :
    ¬ WithinFencesOf (withoutOutliers stretchedSamples) (withoutOutliers stretchedSamples) := by
  rw [withoutOutliers_stretchedSamples]
  obtain ⟨hq1, hq3⟩ := quartiles_of_segments [10, 11, 12, 13, 18] (by decide) (by decide)
    ⟨1, 11, 12, rfl, rfl, by norm_num [percentileRank], by norm_num [percentileRank]⟩
    ⟨3, 13, 18, rfl, rfl, by norm_num [percentileRank], by norm_num [percentileRank]⟩
  rw [withinFencesOf_iff hq1 hq3]
  intro hinside
  have hlast := ((holds_around _).mp (hinside 18 (by decide))).2
  norm_num [Segment.value, percentileRank] at hlast

end

theorem withoutOutliers_filteredOnce_stretchedSamples :
    letI := OpenFunctions.rational
    4 ≤ stretchedSamples.length ∧ 4 ≤ (withoutOutliers stretchedSamples).length ∧
      FilteredOnce stretchedSamples := by
  let _ : OpenFunctions := OpenFunctions.rational
  have hlength : 4 ≤ stretchedSamples.length := by decide
  have hkept := four_le_length_stretchedSamples
  exact ⟨hlength, hkept, withoutOutliers_filteredOnce stretchedSamples hlength hkept⟩

/-- **A second pass can drop more.** -/
theorem withoutOutliers_twice_ne :
    letI := OpenFunctions.rational
    4 ≤ stretchedSamples.length ∧ 4 ≤ (withoutOutliers stretchedSamples).length ∧
      ¬ WithinFencesOf (withoutOutliers stretchedSamples) (withoutOutliers stretchedSamples) ∧
      withoutOutliers (withoutOutliers stretchedSamples) ≠ withoutOutliers stretchedSamples := by
  let _ : OpenFunctions := OpenFunctions.rational
  have hkept := four_le_length_stretchedSamples
  have houtside := not_withinFencesOf_stretchedSamples
  exact ⟨by decide, hkept, houtside, mt (withoutOutliers_eq_self_iff hkept).mp houtside⟩

end RunCompare.Stats
