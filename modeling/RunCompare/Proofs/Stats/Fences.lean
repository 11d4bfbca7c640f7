/-
The outlier filter as one decision on each sample.

The filter removes positions that were noted when the outliers were told, and
those were told by fences that come from a sorted copy.  For samples that are
numbers this is the decision of the fences on each sample, made in the order in
which the samples came, and a series that is too short for fences makes the
same one.  The fences themselves do not depend on that order.

No sum or product is worked out for this.  The laws hold with any arithmetic on
64-bit numbers, zeros of either sign and infinities included.  Only that there
are fences at all rests on the processor's arithmetic, because the rank of a
quartile has to be a position of the series.
-/
import RunCompare.Proofs.Binary64.Arithmetic
import RunCompare.Proofs.Indices.Ranks

namespace RunCompare.Stats

open Binary64

/-- The filter is the decision of the fences, and the fences depend on the set of samples. -/
structure FiltersByFences {α : Type} [Scalar α] (xs : List α) : Prop where
  /-- Of the samples those inside the fences are kept, in their order. -/
  kept : ∀ o, Outliers.detect xs = some o → withoutOutliers xs = xs.filter o.fences.holds
  unfenced : Outliers.detect xs = none → withoutOutliers xs = xs
  /-- In another order the samples have the same fences and quartiles. -/
  fences : ∀ ys, xs.Perm ys → (Outliers.detect ys).map (fun o => (o.fences, o.q1, o.q3)) =
    (Outliers.detect xs).map fun o => (o.fences, o.q1, o.q3)
  perm : ∀ ys, xs.Perm ys → (withoutOutliers xs).Perm (withoutOutliers ys)

theorem filtersByFences {α : Type} [Scalar α] [LinearlyRanked α] {xs : List α}
    (hnumber : ∀ x ∈ xs, x ≤ x) : FiltersByFences xs where
  kept _ h := withoutOutliers_eq_filter hnumber h
  unfenced h := by rw [withoutOutliers, h]
  fences _ h := detect_perm h
  perm _ h := withoutOutliers_perm hnumber h

/--
**On numbers the filter is the decision of the fences, in any order and with any arithmetic.**

With the processor's arithmetic only an empty series has no fences.
-/
theorem withoutOutliers_byFences (xs : List Binary64) (hnumber : ∀ x ∈ xs, x.isNaN = false) :
    (∀ a : Arithmetic, letI := a.scalar; FiltersByFences xs) ∧
      (xs ≠ [] → letI := Arithmetic.processor.scalar; ∃ o, Outliers.detect xs = some o) := by
  refine ⟨fun a => ?_, fun hne => ?_⟩
  · let _ := a.scalar
    exact filtersByFences fun x hx => le_iff.mpr ⟨hnumber x hx, hnumber x hx, Int.le_refl _⟩
  · exact Option.isSome_iff_exists.mp (Outliers.detect_isSome hne)

/-- Both zeros, both infinities and two equal samples. -/
def signedSamples : List Binary64 :=
  [.ofParts true 0, .ofNat 1, .infinity, .ofNat 0, .negativeInfinity, .ofNat 1]

theorem withoutOutliers_byFences_signedSamples :
    (∀ x ∈ signedSamples, x.isNaN = false) ∧ signedSamples ≠ [] ∧
    (∀ a : Arithmetic, letI := a.scalar; FiltersByFences signedSamples) ∧
    letI := Arithmetic.processor.scalar; ∃ o, Outliers.detect signedSamples = some o := by
  have hnumber : ∀ x ∈ signedSamples, x.isNaN = false := by decide +kernel
  have hne : signedSamples ≠ [] := List.cons_ne_nil _ _
  obtain ⟨hfences, hdetect⟩ := withoutOutliers_byFences signedSamples hnumber
  exact ⟨hnumber, hne, hfences, hdetect hne⟩

end RunCompare.Stats
