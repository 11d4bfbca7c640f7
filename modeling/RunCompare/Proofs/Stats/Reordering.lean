/-
Statistics of samples that come in another order.

A series is sorted before anything is read off its ranks, and a linear order
leaves only one way to sort it.  The quartiles, the fences around them and with
these the set of samples that count as outliers are therefore the same in every
order; that the samples left over keep the order of the series does not matter,
because what is computed from them does not depend on it either.

The mean and the spread come from a pass that updates them sample by sample, and
there is no sorting to appeal to.  In exact arithmetic two neighbouring updates
can change places (`Moments.add_right_comm`), which is all that a permutation
does.
-/
import RunCompare.Proofs.Exact
import RunCompare.Proofs.Stats.Affine
import RunCompare.Stats.Regression

namespace RunCompare.Stats

open Scalar

/-! ### Sorting -/

/-- The total order is a linear order: it ranks two values level only if they are the same. -/
class LinearlyRanked (α : Type) [Scalar α] : Prop where
  trans : ∀ x y z : α, totalLe x y = true → totalLe y z = true → totalLe x z = true
  total : ∀ x y : α, (totalLe x y || totalLe y x) = true
  antisymm : ∀ x y : α, totalLe x y = true → totalLe y x = true → x = y

section

variable {α : Type} [Scalar α] [LinearlyRanked α] {xs ys : List α}

theorem ranked_sorted (xs : List α) : (sorted xs).Pairwise fun x y => totalLe x y = true :=
  List.pairwise_mergeSort LinearlyRanked.trans LinearlyRanked.total xs

/-- A rearrangement in which no sample is ranked below an earlier one is the sorted series. -/
theorem eq_sorted (h : xs.Perm ys) (hranked : xs.Pairwise fun x y => totalLe x y = true) :
    xs = sorted ys :=
  (h.trans (List.mergeSort_perm ys totalLe).symm).eq_of_pairwise
    (fun x y _ _ => LinearlyRanked.antisymm x y) hranked (ranked_sorted ys)

/-- **There is one way to sort samples.** -/
theorem sorted_perm (h : xs.Perm ys) : sorted xs = sorted ys :=
  eq_sorted ((List.mergeSort_perm xs totalLe).trans h) (ranked_sorted xs)

theorem summary_perm (h : xs.Perm ys) : Summary.ofSamples xs = Summary.ofSamples ys := by
  unfold Summary.ofSamples
  rw [sorted_perm h]

theorem percentile_perm (h : xs.Perm ys) (p : α) : percentile xs p = percentile ys p := by
  unfold percentile
  rw [sorted_perm h]

/-- Of the outliers only the positions depend on the order of the samples. -/
theorem detect_perm (h : xs.Perm ys) :
    (Outliers.detect ys).map (fun o => (o.fences, o.q1, o.q3)) =
      (Outliers.detect xs).map fun o => (o.fences, o.q1, o.q3) := by
  unfold Outliers.detect
  simp only [sorted_perm h, h.length_eq]
  split
  · cases (sorted ys).head? with
    | none => rfl
    | some least =>
        cases (sorted ys).getLast? with
        | none => rfl
        | some greatest => rfl
  · cases lowerQuartile (sorted ys) with
    | none => rfl
    | some q1 =>
        cases upperQuartile (sorted ys) with
        | none => rfl
        | some q3 => rfl

end

/-! ### Dropping outliers -/

section

variable {α : Type} [Scalar α] {xs : List α} {o : Outliers α}

/-- A position is that of an outlier exactly if its sample lies outside the fences. -/
theorem contains_positions (hnumber : ∀ x ∈ xs, x ≤ x) (h : Outliers.detect xs = some o)
    {e : α × Nat} (he : e ∈ xs.zipIdx) : o.positions.contains e.2 = !o.fences.holds e.1 := by
  have hat : xs[e.2]? = some e.1 := List.mem_zipIdx_iff_getElem?.mp he
  have hself : e.1 ≤ e.1 := hnumber e.1 (List.mem_of_getElem? hat)
  unfold Outliers.detect at h
  split at h
  · -- A short series has neither positions nor fences.
    simp only [Option.bind_eq_bind, Option.bind_eq_some_iff] at h
    obtain ⟨least, -, greatest, -, ho⟩ := h
    cases ho
    simp [Fences.holds, hself]
  · simp only [Option.bind_eq_bind, Option.bind_eq_some_iff] at h
    obtain ⟨q1, -, q3, -, ho⟩ := h
    cases ho
    rw [Bool.eq_iff_iff, List.contains_iff_mem]
    show e.2 ∈ (xs.zipIdx.filter _).map _ ↔ _
    rw [List.mem_map]
    constructor
    · rintro ⟨e', he', heq⟩
      obtain ⟨hmem, houtside⟩ := List.mem_filter.mp he'
      have hat' : xs[e'.2]? = some e'.1 := List.mem_zipIdx_iff_getElem?.mp hmem
      rw [heq, hat] at hat'
      rw [Option.some.inj hat']
      exact houtside
    · intro houtside
      exact ⟨e, List.mem_filter.mpr ⟨he, houtside⟩, rfl⟩

/-- **Dropping outliers keeps the samples inside the fences, in their order.** -/
theorem withoutOutliers_eq_filter (hnumber : ∀ x ∈ xs, x ≤ x) (h : Outliers.detect xs = some o) :
    withoutOutliers xs = xs.filter o.fences.holds := by
  have hremove : o.removeFrom xs = xs.filter o.fences.holds := by
    unfold Outliers.removeFrom
    have hkept : ∀ e ∈ xs.zipIdx, (!o.positions.contains e.2) = (o.fences.holds ∘ Prod.fst) e := by
      intro e he
      rw [contains_positions hnumber h he, Bool.not_not]
      rfl
    rw [List.filter_congr hkept, ← List.filter_map, List.zipIdx_map_fst]
  unfold withoutOutliers
  simp only [h]
  split
  · exact hremove
  · rename_i hany
    rw [← hremove]
    have hnone : o.positions = [] := by simpa [Outliers.any] using hany
    simp [Outliers.removeFrom, hnone]

/-- **The samples that are kept do not depend on the order of all.** -/
theorem withoutOutliers_perm [LinearlyRanked α] {ys : List α} (hnumber : ∀ x ∈ xs, x ≤ x)
    (h : xs.Perm ys) : (withoutOutliers xs).Perm (withoutOutliers ys) := by
  have hdetect := detect_perm h
  cases hx : Outliers.detect xs with
  | none =>
      rw [hx, Option.map_none, Option.map_eq_none_iff] at hdetect
      unfold withoutOutliers
      rw [hx, hdetect]
      exact h
  | some o =>
      rw [hx, Option.map_some, Option.map_eq_some_iff] at hdetect
      obtain ⟨o', hy, heq⟩ := hdetect
      have hfences : o'.fences = o.fences := congrArg Prod.fst heq
      have hnumber' : ∀ y ∈ ys, y ≤ y := fun y hy => hnumber y (h.mem_iff.mpr hy)
      rw [withoutOutliers_eq_filter hnumber hx, withoutOutliers_eq_filter hnumber' hy, hfences]
      exact h.filter _

end

/-! ### In exact arithmetic -/

variable [OpenFunctions] {xs ys : List ℚ}

instance : LinearlyRanked ℚ where
  trans := totalLe_trans
  total := totalLe_total
  antisymm _ _ hxy hyx := le_antisymm (totalLe_iff.mp hxy) (totalLe_iff.mp hyx)

/-- **Two samples can be added in either order.** -/
theorem Moments.add_right_comm (m : Moments ℚ) (x y : ℚ) :
    (m.add x).add y = (m.add y).add x := by
  obtain ⟨n, mean, squares⟩ := m
  have hn : ((n : ℚ) + 1) ≠ 0 := by positivity
  have hn' : ((n : ℚ) + 1 + 1) ≠ 0 := by positivity
  simp only [Moments.add, Moments.mk.injEq, Nat.cast_add, Nat.cast_one, true_and]
  constructor
  · field_simp
    ring
  · field_simp
    ring

theorem moments_perm (h : xs.Perm ys) : Moments.ofSamples xs = Moments.ofSamples ys :=
  h.foldl_eq' (fun x _ y _ m => Moments.add_right_comm m x y) Moments.start

theorem mean_perm (h : xs.Perm ys) : mean xs = mean ys := by
  unfold mean
  rw [h.isEmpty_eq, moments_perm h]

theorem stdDev_perm (h : xs.Perm ys) : stdDev xs = stdDev ys := by
  unfold stdDev
  rw [h.isEmpty_eq, moments_perm h]

theorem sum_perm (h : xs.Perm ys) : Scalar.sum xs = Scalar.sum ys := by
  rw [sum_eq, sum_eq, h.sum_eq]

theorem sum_map_perm {τ : Type} {items items' : List τ} (h : items.Perm items') (f : τ → ℚ) :
    Scalar.sum (items.map f) = Scalar.sum (items'.map f) := sum_perm (h.map f)

/-- **A description does not depend on the order of the samples.** -/
theorem description_perm (h : xs.Perm ys) : Description.ofSamples xs = Description.ofSamples ys := by
  have hkept := withoutOutliers_perm (fun x _ => le_refl x) h
  unfold Description.ofSamples
  simp only [mean_perm hkept, stdDev_perm hkept, sorted_perm hkept]

/-! ### Regression -/

/-- Neighbours that are equal all the way make all values equal. -/
theorem allEqual_iff {zs : List ℚ} : allEqual zs = true ↔ ∀ x ∈ zs, ∀ y ∈ zs, x = y := by
  induction zs with
  | nil => simp [allEqual]
  | cons a rest ih =>
      cases rest with
      | nil => simp [allEqual]
      | cons b rest =>
          rw [allEqual, Bool.and_eq_true, ih, beq_iff_eq]
          constructor
          · rintro ⟨rfl, hrest⟩ x hx y hy
            have hmem : ∀ z ∈ a :: a :: rest, z ∈ a :: rest := by
              intro z hz
              rcases List.mem_cons.mp hz with rfl | hz
              · exact List.mem_cons_self
              · exact hz
            exact hrest x (hmem x hx) y (hmem y hy)
          · intro hall
            refine ⟨hall a (by simp) b (by simp), fun x hx y hy => ?_⟩
            exact hall x (List.mem_cons_of_mem _ hx) y (List.mem_cons_of_mem _ hy)

theorem allEqual_perm (h : xs.Perm ys) : allEqual xs = allEqual ys := by
  rw [Bool.eq_iff_iff, allEqual_iff, allEqual_iff]
  simp only [h.mem_iff]

theorem fitThrough_perm {points points' : List (ℚ × ℚ)} (h : points.Perm points')
    (meanX meanY : ℚ) :
    Regression.fitThrough points meanX meanY = Regression.fitThrough points' meanX meanY := by
  unfold Regression.fitThrough
  simp only [sum_map_perm h, allEqual_perm (h.map Prod.snd)]

/-- **The line through points does not depend on their order.** -/
theorem regression_perm {points points' : List (ℚ × ℚ)} (h : points.Perm points') :
    Regression.ofPoints points = Regression.ofPoints points' := by
  unfold Regression.ofPoints
  rw [h.length_eq, mean_perm (h.map Prod.fst), mean_perm (h.map Prod.snd)]
  simp only [fitThrough_perm h]

end RunCompare.Stats
