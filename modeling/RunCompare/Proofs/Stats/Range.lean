/-
Where the mean and the median of a series lie.

An average lies between any two bounds of its values, and a percentile between the
least and the greatest sample.  The outlier filter returns samples that were there,
and at least one of them: a short series is kept as it is, and of a longer one the
filter keeps the middle.  So a series that is not empty is described, and bounds of
its samples are bounds of its mean and its median (`exists_description`).

In exact arithmetic only.  Of the square root only its sign is used.
-/
import RunCompare.Proofs.Stats.Moments
import RunCompare.Proofs.Stats.Outlier
import Mathlib.Algebra.Order.BigOperators.Group.List

namespace RunCompare.Stats

open Scalar

/-! ### Averages -/

section

variable {xs : List ℚ} {c : ℚ}

theorem le_average (h : xs ≠ []) (hc : ∀ x ∈ xs, c ≤ x) : c ≤ average xs := by
  have hlength : (0 : ℚ) < xs.length := Nat.cast_pos.mpr (List.length_pos_of_ne_nil h)
  have hsum := List.card_nsmul_le_sum xs c hc
  rw [nsmul_eq_mul] at hsum
  rw [average, le_div_iff₀ hlength, mul_comm]
  exact hsum

theorem average_le (h : xs ≠ []) (hc : ∀ x ∈ xs, x ≤ c) : average xs ≤ c := by
  have hlength : (0 : ℚ) < xs.length := Nat.cast_pos.mpr (List.length_pos_of_ne_nil h)
  have hsum := List.sum_le_card_nsmul xs c hc
  rw [nsmul_eq_mul] at hsum
  rw [average, div_le_iff₀ hlength, mul_comm]
  exact hsum

end

/-! ### What the filter leaves -/

/-- The filter only takes samples away. -/
theorem withoutOutliers_sublist {α : Type} [Scalar α] (xs : List α) :
    (withoutOutliers xs).Sublist xs := by
  have hremove : ∀ o : Outliers α, (o.removeFrom xs).Sublist xs := by
    intro o
    have hsub : ((xs.zipIdx.filter fun e => !o.positions.contains e.2).map Prod.fst).Sublist
        (xs.zipIdx.map Prod.fst) := List.filter_sublist.map _
    rwa [List.zipIdx_map_fst] at hsub
  unfold withoutOutliers
  cases Outliers.detect xs with
  | none => exact List.Sublist.refl xs
  | some o =>
      show (if o.any then o.removeFrom xs else xs).Sublist xs
      split
      · exact hremove o
      · exact List.Sublist.refl xs

variable [OpenFunctions] {xs : List ℚ}

/-- A series that is too short for fences is kept. -/
theorem withoutOutliers_of_short (h : xs.length < 4) : withoutOutliers xs = xs := by
  have hunfenced : ∀ o, Outliers.detect xs = some o → o.fences = .unbounded := by
    intro o ho
    unfold Outliers.detect at ho
    rw [if_pos (show xs.length < leastSamplesWithOutliers from h)] at ho
    simp only [Option.bind_eq_bind, Option.bind_eq_some_iff] at ho
    obtain ⟨least, -, greatest, -, ho⟩ := ho
    cases ho
    rfl
  cases ho : Outliers.detect xs with
  | none => rw [withoutOutliers, ho]
  | some o =>
      rw [withoutOutliers_eq_filter (fun x _ => le_refl x) ho, hunfenced o ho]
      exact List.filter_eq_self.mpr fun x _ => decide_eq_true (le_refl x)

/-- **The filter leaves something of every series but the empty one.** -/
theorem withoutOutliers_ne_nil (h : xs ≠ []) : withoutOutliers xs ≠ [] := by
  by_cases hlength : 4 ≤ xs.length
  · obtain ⟨o, lower, upper, hdetect, hfences, henclose⟩ := exists_fences hlength
    have hkept := withoutOutliers_eq_filter (fun x _ => le_refl x) hdetect
    rw [hfences] at hkept
    exact (keepsBlock_of_enclose hlength hkept henclose).nonempty
  · rw [withoutOutliers_of_short (Nat.lt_of_not_le hlength)]
    exact h

/-! ### Descriptions -/

/-- Mean and median between the least and the greatest sample, and a band around the mean. -/
structure Describes (xs : List ℚ) (least greatest : ℚ) (d : Description ℚ) : Prop where
  isLeast : IsLeast {x | x ∈ xs} least
  isGreatest : IsGreatest {x | x ∈ xs} greatest
  mean : least ≤ d.mean ∧ d.mean ≤ greatest
  median : least ≤ d.median ∧ d.median ≤ greatest
  sd : 0 ≤ d.sd
  meanUpper : d.meanUpper = d.mean + d.sd
  meanLower : d.meanLower = d.mean - d.sd

theorem variance_nonneg (m : Moments ℚ) : 0 ≤ m.variance := by
  unfold Moments.variance
  dsimp only
  split
  · rename_i hpos
    exact le_of_lt (lt_of_eq_of_lt zero_eq.symm hpos)
  · exact zero_eq.ge

theorem stdDev_eq_some (h : xs ≠ []) :
    stdDev xs = some (sqrt (Moments.ofSamples xs).variance) := by
  rw [stdDev, List.isEmpty_eq_false_iff.mpr h]
  rfl

/-- **Every series but the empty one is described, inside its range.** -/
theorem exists_description (hsqrt : ∀ x : ℚ, 0 ≤ x → 0 ≤ OpenFunctions.sqrt x) (h : xs ≠ []) :
    ∃ least greatest d, Description.ofSamples xs = some d ∧ Describes xs least greatest d := by
  obtain ⟨least, greatest, hall⟩ := exists_orderedPercentiles h
  have hkept : withoutOutliers xs ≠ [] := withoutOutliers_ne_nil h
  have hsub : ∀ x ∈ withoutOutliers xs, x ∈ xs := fun x hx => (withoutOutliers_sublist xs).mem hx
  have hlow : ∀ x ∈ withoutOutliers xs, least ≤ x := fun x hx => hall.isLeast.2 (hsub x hx)
  have hhigh : ∀ x ∈ withoutOutliers xs, x ≤ greatest := fun x hx => hall.isGreatest.2 (hsub x hx)
  -- The median lies between the ends of what is kept, and these are samples.
  obtain ⟨least', greatest', hordered⟩ := exists_orderedPercentiles hkept
  obtain ⟨median, median', hmedian, hmedian', hge, -, hle⟩ :=
    hordered.rise ((50 : Nat) : ℚ) ((50 : Nat) : ℚ) (by norm_num) (le_refl _) (by norm_num)
  cases hmedian.symm.trans hmedian'
  have hmean := mean_eq_average hkept
  have hsd := stdDev_eq_some hkept
  set sd := sqrt (Moments.ofSamples (withoutOutliers xs)).variance
  refine ⟨least, greatest, ⟨average (withoutOutliers xs), median, sd,
    average (withoutOutliers xs) + sd, average (withoutOutliers xs) - sd⟩, ?_,
    hall.isLeast, hall.isGreatest, ⟨le_average hkept hlow, average_le hkept hhigh⟩,
    ⟨(hlow _ hordered.isLeast.1).trans hge, hle.trans (hhigh _ hordered.isGreatest.1)⟩,
    hsqrt _ (variance_nonneg _), rfl, rfl⟩
  show ((mean (withoutOutliers xs)).bind fun mean => (percentile (withoutOutliers xs) _).bind
    fun median => (stdDev (withoutOutliers xs)).bind fun sd => _) = _
  rw [hmean, hmedian, hsd]
  rfl

end RunCompare.Stats
