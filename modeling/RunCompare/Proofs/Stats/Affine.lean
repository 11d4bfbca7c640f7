/-
Statistics of samples measured in another unit.

A change of unit and of origin is a map `x ↦ a * x + b` with `a` above zero.
Everything that locates samples follows it: sorting, quantiles, the mean, and
the fences of the outlier filter, which therefore drops the same samples.  What
measures a spread is multiplied by `a` or its square and does not feel `b`.

In exact arithmetic only: no step here survives rounding.
-/
import RunCompare.Proofs.Exact
import RunCompare.Proofs.Stats.Summary
import RunCompare.Stats.Description

namespace RunCompare.Stats

open Scalar

/-- A change of unit by a factor and of origin by an offset. -/
structure Affine (f : ℚ → ℚ) (a b : ℚ) : Prop where
  apply : ∀ x, f x = a * x + b
  pos : 0 < a

namespace Affine

variable {f : ℚ → ℚ} {a b : ℚ}

theorem scaling {c : ℚ} (hc : 0 < c) : Affine (c * ·) c 0 := ⟨fun x => (add_zero (c * x)).symm, hc⟩

theorem strictMono (hf : Affine f a b) : StrictMono f := by
  intro x y hxy
  rw [hf.apply, hf.apply]
  exact add_lt_add_left (mul_lt_mul_of_pos_left hxy hf.pos) b

/-- A point between two others keeps its place between them. -/
theorem between (hf : Affine f a b) (t x y : ℚ) : f x + t * (f y - f x) = f (x + t * (y - x)) := by
  rw [hf.apply, hf.apply, hf.apply]
  ring

end Affine

variable [OpenFunctions] {f : ℚ → ℚ} {a b : ℚ}

/-! ### Order -/

theorem sorted_map (hf : StrictMono f) (xs : List ℚ) : sorted (xs.map f) = (sorted xs).map f := by
  refine (List.map_mergeSort fun x _ y _ => ?_).symm
  show decide (x ≤ y) = decide (f x ≤ f y)
  rw [decide_eq_decide]
  exact hf.le_iff_le.symm

theorem atRank_map (hf : Affine f a b) (xs : List ℚ) (rank : ℚ) :
    atRank (xs.map f) rank = (atRank xs rank).map f := by
  unfold atRank
  simp only [List.getElem?_map]
  by_cases h : floorNat rank = ceilNat rank
  · rw [if_pos h, if_pos h]
  · rw [if_neg h, if_neg h]
    cases xs[floorNat rank]? with
    | none => rfl
    | some low =>
        cases xs[ceilNat rank]? with
        | none => rfl
        | some high => exact congrArg some (hf.between _ low high)

/-- **Every percentile follows a change of unit.** -/
theorem percentileOfSorted_map (hf : Affine f a b) (xs : List ℚ) (p : ℚ) :
    percentileOfSorted (xs.map f) p = (percentileOfSorted xs p).map f := by
  unfold percentileOfSorted
  by_cases h : (!isPercentage p) = true
  · rw [if_pos h, if_pos h]
    rfl
  · rw [if_neg h, if_neg h]
    match xs with
    | [] => rfl
    | [x] => rfl
    | x :: y :: rest =>
        have hrank : percentileRank ((x :: y :: rest).map f).length p =
            percentileRank (x :: y :: rest).length p := by rw [List.length_map]
        show atRank ((x :: y :: rest).map f) (percentileRank ((x :: y :: rest).map f).length p) =
          (atRank (x :: y :: rest) (percentileRank (x :: y :: rest).length p)).map f
        rw [hrank, atRank_map hf]

/-! ### Outliers -/

/-- The fences around samples in another unit. -/
def Fences.map (f : ℚ → ℚ) : Fences ℚ → Fences ℚ
  | .unbounded => .unbounded
  | .between lower upper => .between (f lower) (f upper)

/-- The outliers of samples in another unit. -/
def Outliers.map (f : ℚ → ℚ) (a : ℚ) (o : Outliers ℚ) : Outliers ℚ :=
  ⟨o.positions, o.fences.map f, f o.q1, f o.q3, a * o.iqr⟩

theorem holds_map (hf : StrictMono f) (fences : Fences ℚ) (x : ℚ) :
    (fences.map f).holds (f x) = fences.holds x := by
  cases fences with
  | unbounded => exact decide_eq_decide.mpr hf.le_iff_le
  | between lower upper =>
      exact congrArg₂ and (decide_eq_decide.mpr hf.le_iff_le) (decide_eq_decide.mpr hf.le_iff_le)

theorem around_map (hf : Affine f a b) (q1 q3 : ℚ) :
    Fences.around (f q1) (f q3) = (Fences.around q1 q3).map f := by
  unfold Fences.around Fences.map
  refine congrArg₂ Fences.between ?_ ?_
  · rw [hf.apply, hf.apply, hf.apply]
    ring
  · rw [hf.apply, hf.apply, hf.apply]
    ring

/-- The same positions lie outside fences that hold the same samples. -/
theorem positionsOutside_map {fences fences' : Fences ℚ}
    (h : ∀ x, fences'.holds (f x) = fences.holds x) (xs : List ℚ) :
    Outliers.positionsOutside fences' (xs.map f) = Outliers.positionsOutside fences xs := by
  unfold Outliers.positionsOutside
  rw [List.zipIdx_map, List.filter_map, List.map_map]
  simp only [Function.comp_def, Prod.map_fst, Prod.map_snd, h, id_eq]

/-- **The same samples are outliers in every unit.** -/
theorem detect_map (hf : Affine f a b) (xs : List ℚ) :
    Outliers.detect (xs.map f) = (Outliers.detect xs).map (Outliers.map f a) := by
  unfold Outliers.detect
  rw [sorted_map hf.strictMono, List.length_map]
  by_cases h : xs.length < leastSamplesWithOutliers
  · rw [if_pos h, if_pos h, List.head?_map, List.getLast?_map]
    have hzero : (zero : ℚ) = a * zero := by simp
    cases (sorted xs).head? with
    | none => rfl
    | some least =>
        cases (sorted xs).getLast? with
        | none => rfl
        | some greatest =>
            show some (Outliers.mk [] .unbounded (f least) (f greatest) zero) =
              some (Outliers.mk [] .unbounded (f least) (f greatest) (a * zero))
            rw [← hzero]
  · rw [if_neg h, if_neg h]
    unfold lowerQuartile upperQuartile
    rw [percentileOfSorted_map hf, percentileOfSorted_map hf]
    cases percentileOfSorted (sorted xs) ((25 : Nat) : ℚ) with
    | none => rfl
    | some q1 =>
        cases percentileOfSorted (sorted xs) ((75 : Nat) : ℚ) with
        | none => rfl
        | some q3 =>
            have hiqr : f q3 - f q1 = a * (q3 - q1) := by
              rw [hf.apply, hf.apply]
              ring
            show some (Outliers.mk (Outliers.positionsOutside (Fences.around (f q1) (f q3))
              (xs.map f)) (Fences.around (f q1) (f q3)) (f q1) (f q3) (f q3 - f q1)) = _
            rw [around_map hf, positionsOutside_map (holds_map hf.strictMono _), hiqr]
            rfl

omit [OpenFunctions] in
theorem removeFrom_map {o o' : Outliers ℚ} (h : o'.positions = o.positions) (xs : List ℚ) :
    o'.removeFrom (xs.map f) = (o.removeFrom xs).map f := by
  unfold Outliers.removeFrom
  rw [List.zipIdx_map, List.filter_map, List.map_map, List.map_map, h]
  rfl

/-- Where the same positions are flagged, the same samples are dropped. -/
theorem withoutOutliers_map_of_positions {xs : List ℚ}
    (h : (Outliers.detect (xs.map f)).map (·.positions) = (Outliers.detect xs).map (·.positions)) :
    withoutOutliers (xs.map f) = (withoutOutliers xs).map f := by
  unfold withoutOutliers
  cases ho : Outliers.detect xs with
  | none =>
      rw [ho, Option.map_none, Option.map_eq_none_iff] at h
      rw [h]
  | some o =>
      rw [ho, Option.map_some, Option.map_eq_some_iff] at h
      obtain ⟨o', ho', hpositions⟩ := h
      have hany : o'.any = o.any := congrArg (fun positions : List Nat => !positions.isEmpty) hpositions
      simp only [ho', hany, removeFrom_map hpositions]
      by_cases h : o.any = true
      · rw [if_pos h, if_pos h]
      · rw [if_neg h, if_neg h]

/-- **Dropping outliers commutes with a change of unit.** -/
theorem withoutOutliers_map (hf : Affine f a b) (xs : List ℚ) :
    withoutOutliers (xs.map f) = (withoutOutliers xs).map f := by
  refine withoutOutliers_map_of_positions ?_
  rw [detect_map hf, Option.map_map]
  rfl

/-! ### Mean and spread -/

/-- The moments of samples before and after a change of unit.  Before the first sample both means
are zero, wherever the origin is. -/
structure Moments.Follow (f : ℚ → ℚ) (a : ℚ) (m m' : Moments ℚ) : Prop where
  count : m'.count = m.count
  start : m.count = 0 → m.mean = 0 ∧ m'.mean = 0
  mean : m.count ≠ 0 → m'.mean = f m.mean
  squares : m'.squares = a ^ 2 * m.squares

theorem Moments.add_first {m : Moments ℚ} (h0 : m.count = 0) (hmean : m.mean = 0) (x : ℚ) :
    (m.add x).mean = x := by
  show m.mean + (x - m.mean) / ((m.count + 1 : Nat) : ℚ) = x
  rw [h0, hmean]
  simp

/-- One more sample keeps the moments together. -/
theorem Moments.Follow.add (hf : Affine f a b) {m m' : Moments ℚ} (h : Moments.Follow f a m m')
    (x : ℚ) : Moments.Follow f a (m.add x) (m'.add (f x)) := by
  by_cases h0 : m.count = 0
  · obtain ⟨hmean, hmean'⟩ := h.start h0
    have hx := Moments.add_first h0 hmean x
    have hx' := Moments.add_first (h.count.trans h0) hmean' (f x)
    refine ⟨congrArg (· + 1) h.count, fun hn => absurd hn (Nat.succ_ne_zero _), fun _ => ?_, ?_⟩
    · rw [hx, hx']
    · show m'.squares + (f x - m'.mean) * (f x - (m'.add (f x)).mean) =
        a ^ 2 * (m.squares + (x - m.mean) * (x - (m.add x).mean))
      rw [hx, hx', h.squares]
      ring
  · have hmean : (m'.add (f x)).mean = f (m.add x).mean := by
      show m'.mean + (f x - m'.mean) / ((m'.count + 1 : Nat) : ℚ) =
        f (m.mean + (x - m.mean) / ((m.count + 1 : Nat) : ℚ))
      rw [h.count, h.mean h0, hf.apply, hf.apply, hf.apply]
      ring
    refine ⟨congrArg (· + 1) h.count, fun hn => absurd hn (Nat.succ_ne_zero _), fun _ => hmean, ?_⟩
    show m'.squares + (f x - m'.mean) * (f x - (m'.add (f x)).mean) =
      a ^ 2 * (m.squares + (x - m.mean) * (x - (m.add x).mean))
    rw [hmean, h.mean h0, h.squares, hf.apply, hf.apply, hf.apply]
    ring

/-- **The moments of a series follow a change of unit.** -/
theorem moments_map (hf : Affine f a b) (xs : List ℚ) :
    Moments.Follow f a (Moments.ofSamples xs) (Moments.ofSamples (xs.map f)) := by
  have run : ∀ (m m' : Moments ℚ), Moments.Follow f a m m' →
      Moments.Follow f a (xs.foldl Moments.add m) ((xs.map f).foldl Moments.add m') := by
    induction xs with
    | nil => intro m m' h; exact h
    | cons x rest ih =>
        intro m m' h
        exact ih _ _ (h.add hf x)
  refine run _ _ ⟨rfl, fun _ => ⟨zero_eq, zero_eq⟩, fun h => absurd rfl h, ?_⟩
  show (zero : ℚ) = a ^ 2 * zero
  simp

theorem mean_map (hf : Affine f a b) (xs : List ℚ) : mean (xs.map f) = (mean xs).map f := by
  cases xs with
  | nil => rfl
  | cons x rest =>
      have hcount : (Moments.ofSamples (x :: rest)).count ≠ 0 := by
        rw [count_moments, List.length_cons]
        exact Nat.succ_ne_zero _
      exact congrArg some ((moments_map hf (x :: rest)).mean hcount)

/-- **The mean of what the filter keeps follows a change of unit.** -/
theorem description_mean_map (hf : Affine f a b) (xs : List ℚ) :
    (Description.ofSamples (xs.map f)).map (·.mean) =
      ((Description.ofSamples xs).map (·.mean)).map f := by
  unfold Description.ofSamples
  simp only [withoutOutliers_map hf, mean_map hf, sorted_map hf.strictMono, median,
    percentileOfSorted_map hf]
  generalize withoutOutliers xs = kept
  cases kept with
  | nil => rfl
  | cons x rest =>
      cases percentileOfSorted (sorted (x :: rest)) ((50 : Nat) : ℚ) with
      | none => rfl
      | some median => rfl

/-! ### Summaries -/

theorem sum_scale (c : ℚ) (xs : List ℚ) : Scalar.sum (xs.map (c * ·)) = c * Scalar.sum xs := by
  rw [sum_eq, sum_eq]
  induction xs with
  | nil => simp
  | cons x rest ih => rw [List.map_cons, List.sum_cons, List.sum_cons, ih, mul_add]

/-- A summary in another unit. -/
def Summary.scale (c : ℚ) (s : Summary ℚ) : Summary ℚ :=
  ⟨s.count, c * s.sum, s.mean.map (c * ·), s.q1.map (c * ·), s.median.map (c * ·),
    s.q3.map (c * ·)⟩

theorem summary_scale {c : ℚ} (hc : 0 < c) (xs : List ℚ) :
    Summary.ofSamples (xs.map (c * ·)) = (Summary.ofSamples xs).scale c := by
  have hf := Affine.scaling hc
  unfold Summary.ofSamples Summary.ofSorted Summary.scale lowerQuartile median upperQuartile
  rw [sorted_map hf.strictMono, List.length_map, sum_scale, mean_map hf,
    percentileOfSorted_map hf, percentileOfSorted_map hf, percentileOfSorted_map hf]

end RunCompare.Stats
