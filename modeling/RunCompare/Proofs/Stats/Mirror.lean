/-
Outliers of samples with the other sign.

Changing the sign of every sample turns the sorted series around.  A rank
counted from its start becomes a rank counted from its end, and the line between
two neighbours is drawn from the other side, through the same points
(`Segment.mirror`).  The quartiles therefore change places, the fences with
them, and the same samples lie outside.

Together with a change of unit this is every map `x ↦ a * x + b` with `a` other
than zero: below zero it is a change of sign and then one of unit.
-/
import RunCompare.Proofs.Stats.Quantile

namespace RunCompare.Stats

open Scalar

/-! ### Series from their end -/

/-- A series from its end, with the other signs. -/
def mirror (xs : List ℚ) : List ℚ := (xs.map fun x => -x).reverse

variable {xs : List ℚ}

theorem length_mirror (xs : List ℚ) : (mirror xs).length = xs.length := by
  rw [mirror, List.length_reverse, List.length_map]

/-- As many samples come before a position from the end as after the one from the start. -/
theorem getElem?_mirror {i j : Nat} (h : i + j + 1 = xs.length) :
    (mirror xs)[i]? = xs[j]?.map fun x => -x := by
  have hplace : (xs.map fun x => -x).length - 1 - i = j := by
    rw [List.length_map]
    omega
  rw [mirror, List.getElem?_reverse (by rw [List.length_map]; omega), hplace, List.getElem?_map]

/-- As many lines come before one from the end as after it from the start. -/
theorem Segment.cast_lower_mirror {rank : ℚ} (s : Segment xs rank) :
    ((xs.length - 2 - s.lower : Nat) : ℚ) + s.lower + 1 = (xs.length - 1 : Nat) := by
  have hlt := s.lower_lt
  have hsum : xs.length - 2 - s.lower + s.lower + 1 = xs.length - 1 := by omega
  exact_mod_cast hsum

theorem head?_mirror (xs : List ℚ) : (mirror xs).head? = xs.getLast?.map fun x => -x := by
  rw [mirror, List.head?_reverse, List.getLast?_map]

theorem getLast?_mirror (xs : List ℚ) : (mirror xs).getLast? = xs.head?.map fun x => -x := by
  rw [mirror, List.getLast?_reverse, List.head?_map]

/-- The line on which a rank lies, seen from the end. -/
def Segment.mirror {rank : ℚ} (s : Segment xs rank) :
    Segment (mirror xs) ((xs.length - 1 : Nat) - rank) where
  lower := xs.length - 2 - s.lower
  low := -s.high
  high := -s.low
  low_at := by
    have hlt := s.lower_lt
    rw [getElem?_mirror (j := s.lower + 1) (by omega), s.high_at, Option.map_some]
  high_at := by
    have hlt := s.lower_lt
    rw [getElem?_mirror (j := s.lower) (by omega), s.low_at, Option.map_some]
  lower_le := by linarith [s.cast_lower_mirror, s.le_upper]
  le_upper := by linarith [s.cast_lower_mirror, s.lower_le]

theorem Segment.value_mirror {rank : ℚ} (s : Segment xs rank) : s.mirror.value = -s.value := by
  have hpart : (xs.length - 1 : Nat) - rank - (xs.length - 2 - s.lower : Nat) =
      1 - (rank - s.lower) := by linarith [s.cast_lower_mirror]
  show -s.high + ((xs.length - 1 : Nat) - rank - (xs.length - 2 - s.lower : Nat)) *
    (-s.low - -s.high) = -(s.low + (rank - s.lower) * (s.high - s.low))
  rw [hpart]
  ring

section

variable [OpenFunctions]

theorem sorted_neg (xs : List ℚ) : sorted (xs.map fun x => -x) = mirror (sorted xs) := by
  refine (eq_sorted ((List.reverse_perm _).trans ((sorted_perm_self xs).map _)) ?_).symm
  rw [List.pairwise_reverse, List.pairwise_map]
  exact (pairwise_sorted xs).imp fun hle => totalLe_iff.mpr (neg_le_neg hle)

/-- **A percentile from the end is one from the start of the series seen from its end.** -/
theorem percentileOfSorted_mirror {p q : ℚ} (hp : 0 ≤ p) (hq : 0 ≤ q) (hpq : p + q = 100) :
    percentileOfSorted (mirror xs) q = (percentileOfSorted xs p).map fun x => -x := by
  have hp' : p ≤ 100 := by linarith
  have hq' : q ≤ 100 := by linarith
  by_cases hne : xs = []
  · subst hne
    rw [percentileOfSorted_nil]
    exact percentileOfSorted_nil q
  rcases singleton_or_two_le hne with ⟨x, rfl⟩ | hlength
  · rw [percentileOfSorted_singleton x hp hp']
    exact percentileOfSorted_singleton (-x) hq hq'
  · obtain ⟨s, hs⟩ := exists_segment hlength hp hp'
    have hrank : percentileRank (mirror xs).length q =
        (xs.length - 1 : Nat) - percentileRank xs.length p := by
      rw [percentileRank, percentileRank, length_mirror, Nat.cast_ofNat, eq_sub_of_add_eq' hpq]
      ring
    rw [percentileOfSorted_eq_atRank (by rwa [length_mirror]) hq hq', hrank,
      s.mirror.atRank_eq, s.value_mirror, hs, Option.map_some]

/-! ### Outliers -/

/-- The fences around samples with the other sign. -/
def Fences.mirror : Fences ℚ → Fences ℚ
  | .unbounded => .unbounded
  | .between lower upper => .between (-upper) (-lower)

/-- The outliers of samples with the other sign. -/
def Outliers.mirror (o : Outliers ℚ) : Outliers ℚ :=
  ⟨o.positions, o.fences.mirror, -o.q3, -o.q1, o.iqr⟩

theorem holds_mirror (fences : Fences ℚ) (x : ℚ) : fences.mirror.holds (-x) = fences.holds x := by
  cases fences with
  | unbounded => exact decide_eq_decide.mpr neg_le_neg_iff
  | between lower upper =>
      refine (Bool.and_comm _ _).trans (congrArg₂ and ?_ ?_)
      · exact decide_eq_decide.mpr neg_le_neg_iff
      · exact decide_eq_decide.mpr neg_le_neg_iff

theorem around_mirror (q1 q3 : ℚ) : Fences.around (-q3) (-q1) = (Fences.around q1 q3).mirror := by
  unfold Fences.around Fences.mirror
  refine congrArg₂ Fences.between ?_ ?_
  · ring
  · ring

omit [OpenFunctions] in
/-- What is told from two samples is mirrored when they change places and signs. -/
theorem both_mirror {f g : ℚ → ℚ → Outliers ℚ} (h : ∀ x y, g (-y) (-x) = (f x y).mirror)
    (first last : Option ℚ) :
    ((last.map fun x => -x).bind fun x => (first.map fun x => -x).bind fun y => some (g x y)) =
      (first.bind fun x => last.bind fun y => some (f x y)).map Outliers.mirror := by
  cases first with
  | none =>
      cases last with
      | none => rfl
      | some y => rfl
  | some x =>
      cases last with
      | none => rfl
      | some y => exact congrArg some (h x y)

/-- **The same samples are outliers with the other sign.** -/
theorem detect_neg (xs : List ℚ) :
    Outliers.detect (xs.map fun x => -x) = (Outliers.detect xs).map Outliers.mirror := by
  unfold Outliers.detect
  rw [sorted_neg, List.length_map]
  by_cases h : xs.length < leastSamplesWithOutliers
  · rw [if_pos h, if_pos h, head?_mirror, getLast?_mirror]
    exact both_mirror (fun _ _ => rfl) (sorted xs).head? (sorted xs).getLast?
  · rw [if_neg h, if_neg h]
    have hq1 : lowerQuartile (mirror (sorted xs)) = (upperQuartile (sorted xs)).map fun x => -x :=
      percentileOfSorted_mirror (by norm_num) (by norm_num) (by norm_num)
    have hq3 : upperQuartile (mirror (sorted xs)) = (lowerQuartile (sorted xs)).map fun x => -x :=
      percentileOfSorted_mirror (by norm_num) (by norm_num) (by norm_num)
    rw [hq1, hq3]
    refine both_mirror (fun q1 q3 => ?_) (lowerQuartile (sorted xs)) (upperQuartile (sorted xs))
    show Outliers.mk (Outliers.positionsOutside (Fences.around (-q3) (-q1)) (xs.map fun x => -x))
      (Fences.around (-q3) (-q1)) (-q3) (-q1) (-q1 - -q3) = _
    rw [around_mirror, positionsOutside_map (holds_mirror _), neg_sub_neg]
    rfl

/-- **The same samples are outliers after every change of unit, origin and sign.** -/
theorem positions_affine {a : ℚ} (ha : a ≠ 0) (b : ℚ) (xs : List ℚ) :
    (Outliers.detect (xs.map fun x => a * x + b)).map (·.positions) =
      (Outliers.detect xs).map (·.positions) := by
  rcases lt_or_gt_of_ne ha with hneg | hpos
  · -- A change of sign, and then one of unit.
    have hf : Affine (fun x => -a * x + b) (-a) b := ⟨fun _ => rfl, neg_pos.mpr hneg⟩
    have hmap : (xs.map fun x => a * x + b) = (xs.map fun x => -x).map fun x => -a * x + b := by
      rw [List.map_map]
      exact List.map_congr_left fun x _ => by simp only [Function.comp_apply, neg_mul_neg]
    rw [hmap, detect_map hf, detect_neg, Option.map_map, Option.map_map]
    rfl
  · have hf : Affine (fun x => a * x + b) a b := ⟨fun _ => rfl, hpos⟩
    rw [detect_map hf, Option.map_map]
    rfl

/--
**Outlier detection does not feel the unit, the origin or the sign.**

The same positions are flagged, so that dropping outliers commutes with the
change.
-/
theorem detect_affineInvariant (a b : ℚ) (ha : a ≠ 0) (xs : List ℚ) :
    (Outliers.detect (xs.map fun x => a * x + b)).map (·.positions) =
        (Outliers.detect xs).map (·.positions) ∧
      withoutOutliers (xs.map fun x => a * x + b) =
        (withoutOutliers xs).map fun x => a * x + b :=
  ⟨positions_affine ha b xs, withoutOutliers_map_of_positions (positions_affine ha b xs)⟩

end

/-- Samples with an outlier above, and an uneven number of steps to each quartile. -/
def skewedSamples : List ℚ := [2, 100, 1, 3, 4, 2]

theorem detect_affineInvariant_skewedSamples :
    letI := OpenFunctions.rational
    (-2 : ℚ) ≠ 0 ∧
    (Outliers.detect (skewedSamples.map fun x => -2 * x + 1)).map (·.positions) =
      (Outliers.detect skewedSamples).map (·.positions) ∧
    withoutOutliers (skewedSamples.map fun x => -2 * x + 1) =
      (withoutOutliers skewedSamples).map fun x => -2 * x + 1 := by
  let _ : OpenFunctions := OpenFunctions.rational
  have hfactor : (-2 : ℚ) ≠ 0 := by norm_num
  exact ⟨hfactor, detect_affineInvariant (-2) 1 hfactor skewedSamples⟩

end RunCompare.Stats
