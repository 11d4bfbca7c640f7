/-
What moments and summaries say about the samples they were made of.

Both count all of them, and a summary has no mean and no quartile exactly if there are
none.
-/
import RunCompare.Stats.Summary

namespace RunCompare.Stats

variable {α : Type} [Scalar α]

open Scalar

/-- One pass counts the samples. -/
theorem count_moments (xs : List α) : (Moments.ofSamples xs).count = xs.length := by
  have run : ∀ m : Moments α, (xs.foldl Moments.add m).count = m.count + xs.length := by
    induction xs with
    | nil => intro m; rfl
    | cons x rest ih =>
        intro m
        rw [List.foldl_cons, ih, List.length_cons]
        show m.count + 1 + rest.length = m.count + (rest.length + 1)
        omega
  exact (run Moments.start).trans (Nat.zero_add _)

theorem count_ofSamples (xs : List α) : (Summary.ofSamples xs).count = xs.length :=
  List.length_mergeSort xs

theorem sorted_ne_nil {xs : List α} (h : xs ≠ []) : sorted xs ≠ [] := by
  rw [← List.length_pos_iff, sorted, List.length_mergeSort]
  exact List.length_pos_iff.mpr h

theorem isEmpty_ofSamples (xs : List α) : (Summary.ofSamples xs).isEmpty = xs.isEmpty := by
  unfold Summary.isEmpty
  rw [count_ofSamples]
  cases xs with
  | nil => rfl
  | cons x rest => rfl

theorem percentileOfSorted_nil (p : α) : percentileOfSorted [] p = none := by
  unfold percentileOfSorted
  split
  · rfl
  · rfl

/-- Without samples there is no quartile. -/
theorem quartiles_ofSamples_nil : (Summary.ofSamples ([] : List α)).q1 = none ∧
    (Summary.ofSamples ([] : List α)).median = none ∧
    (Summary.ofSamples ([] : List α)).q3 = none := by
  unfold Summary.ofSamples sorted
  rw [List.mergeSort_nil]
  exact ⟨percentileOfSorted_nil _, percentileOfSorted_nil _, percentileOfSorted_nil _⟩

end RunCompare.Stats
