/-
Positions in a sorted series.

The items of a sorted series that lie below a bound come first.  An item is one
of them exactly if its position is less than their number (`lt_countP_iff`),
and counting does not depend on the order in which the items came.  Facts about
positions are therefore proved by counting: that the samples between two bounds
are a block of the sorted series, and that samples which are not greater, item
by item, are not greater either after both series have been sorted, each on its
own (`forall₂_sorted`).
-/
import RunCompare.Proofs.Stats.Reordering
import Mathlib.Data.List.Forall2

namespace RunCompare.Stats

open Scalar

/-! ### Items that come first -/

section

variable {β γ : Type} {p : β → Bool} {xs : List β}

/-- The items of a class come before all others. -/
def ComesFirst (p : β → Bool) (xs : List β) : Prop := xs.Pairwise fun x y => p y = true → p x = true

/-- **An item is in a class that comes first exactly if its position is less than the size of the
class.** -/
theorem lt_countP_iff (h : ComesFirst p xs) {k : Nat} {x : β} (hx : xs[k]? = some x) :
    k < xs.countP p ↔ p x = true := by
  induction xs generalizing k with
  | nil => simp at hx
  | cons first rest ih =>
      obtain ⟨hfirst, hrest⟩ := List.pairwise_cons.mp h
      by_cases hp : p first = true
      · rw [List.countP_cons_of_pos hp]
        cases k with
        | zero =>
            rw [List.getElem?_cons_zero, Option.some.injEq] at hx
            rw [← hx]
            exact iff_of_true (Nat.succ_pos _) hp
        | succ k => exact Nat.succ_lt_succ_iff.trans (ih hrest hx)
      · -- If the first item is not in the class, then none is.
        have hnone : ∀ y ∈ first :: rest, ¬ p y = true := by
          intro y hy
          rcases List.mem_cons.mp hy with rfl | hy
          · exact hp
          · exact fun hpy => hp (hfirst y hy hpy)
        rw [List.countP_eq_zero.mpr hnone]
        exact iff_of_false (Nat.not_lt_zero k) (hnone x (List.mem_of_getElem? hx))

/-- A list is the items of a class that comes first, and then the others. -/
theorem filter_append_others (h : ComesFirst p xs) :
    xs.filter p ++ xs.filter (fun x => !p x) = xs := by
  induction xs with
  | nil => rfl
  | cons first rest ih =>
      obtain ⟨hfirst, hrest⟩ := List.pairwise_cons.mp h
      by_cases hp : p first = true
      · rw [List.filter_cons_of_pos hp, List.filter_cons_of_neg (by simp [hp]), List.cons_append,
          ih hrest]
      · have hnone : rest.filter p = [] :=
          List.filter_eq_nil_iff.mpr fun y hy hpy => hp (hfirst y hy hpy)
        rw [List.filter_cons_of_neg hp, hnone, List.nil_append,
          List.filter_eq_self.mpr fun y hy => ?_]
        rcases List.mem_cons.mp hy with rfl | hy
        · simp [hp]
        · have hpy : ¬ p y = true := fun hpy => hp (hfirst y hy hpy)
          simp [hpy]

theorem rel_of_forall₂ {R : β → γ → Prop} {ys : List γ} (h : List.Forall₂ R xs ys) {i : Nat} {x : β}
    {y : γ} (hx : xs[i]? = some x) (hy : ys[i]? = some y) : R x y := by
  obtain ⟨hi, rfl⟩ := List.getElem?_eq_some_iff.mp hx
  obtain ⟨hi', rfl⟩ := List.getElem?_eq_some_iff.mp hy
  exact h.get hi hi'

/-- Of related lists the one has no more items in a class than the other. -/
theorem countP_le_of_forall₂ {R : β → γ → Prop} {q : γ → Bool} {ys : List γ}
    (h : List.Forall₂ R xs ys) (hpq : ∀ x y, R x y → q y = true → p x = true) :
    ys.countP q ≤ xs.countP p := by
  induction h with
  | nil => exact Nat.le_refl 0
  | cons hR _ ih =>
      rw [List.countP_cons, List.countP_cons]
      refine Nat.add_le_add ih ?_
      split
      · rename_i hq
        rw [if_pos (hpq _ _ hR hq)]
      · exact Nat.zero_le _

end

/-! ### Sorted series -/

/-- Samples can be picked out before or after sorting. -/
theorem sorted_filter {α : Type} [Scalar α] [LinearlyRanked α] (p : α → Bool) (xs : List α) :
    sorted (xs.filter p) = (sorted xs).filter p :=
  (eq_sorted ((List.mergeSort_perm xs totalLe).filter p) ((ranked_sorted xs).filter p)).symm

variable [OpenFunctions] {xs ys : List ℚ}

theorem sorted_perm_self (xs : List ℚ) : (sorted xs).Perm xs := List.mergeSort_perm xs totalLe

theorem length_sorted (xs : List ℚ) : (sorted xs).length = xs.length := List.length_mergeSort xs

theorem pairwise_sorted (xs : List ℚ) : (sorted xs).Pairwise (· ≤ ·) :=
  (ranked_sorted xs).imp totalLe_iff.mp

omit [OpenFunctions] in
/-- In a sorted series a later position has no lesser sample. -/
theorem le_of_getElem? (h : xs.Pairwise (· ≤ ·)) {i j : Nat} {x y : ℚ} (hx : xs[i]? = some x)
    (hy : xs[j]? = some y) (hij : i ≤ j) : x ≤ y := by
  obtain ⟨hi, rfl⟩ := List.getElem?_eq_some_iff.mp hx
  obtain ⟨hj, rfl⟩ := List.getElem?_eq_some_iff.mp hy
  rcases Nat.lt_or_eq_of_le hij with hlt | rfl
  · exact List.pairwise_iff_getElem.mp h i j hi hj hlt
  · exact le_refl _

omit [OpenFunctions] in
theorem comesFirst_lt (h : xs.Pairwise (· ≤ ·)) (c : ℚ) : ComesFirst (fun x => decide (x < c)) xs :=
  h.imp fun hxy hy => decide_eq_true (lt_of_le_of_lt hxy (of_decide_eq_true hy))

omit [OpenFunctions] in
theorem comesFirst_le (h : xs.Pairwise (· ≤ ·)) (c : ℚ) : ComesFirst (fun x => decide (x ≤ c)) xs :=
  h.imp fun hxy hy => decide_eq_true (le_trans hxy (of_decide_eq_true hy))

omit [OpenFunctions] in
/-- At most as many samples are below a bound as stand before one that is not. -/
theorem countP_lt_le (h : xs.Pairwise (· ≤ ·)) {k : Nat} {x c : ℚ} (hx : xs[k]? = some x)
    (hc : c ≤ x) : xs.countP (fun x => decide (x < c)) ≤ k := by
  refine Nat.not_lt.mp fun hlt => not_lt.mpr hc ?_
  exact of_decide_eq_true ((lt_countP_iff (comesFirst_lt h c) hx).mp hlt)

omit [OpenFunctions] in
/-- More samples are at most a bound than stand before one that is. -/
theorem lt_countP_le (h : xs.Pairwise (· ≤ ·)) {k : Nat} {x c : ℚ} (hx : xs[k]? = some x)
    (hc : x ≤ c) : k < xs.countP fun x => decide (x ≤ c) :=
  (lt_countP_iff (comesFirst_le h c) hx).mpr (decide_eq_true hc)

/-- **Samples that are not greater, item by item, are not greater when both series are sorted.** -/
theorem forall₂_sorted (h : List.Forall₂ (· ≤ ·) xs ys) :
    List.Forall₂ (· ≤ ·) (sorted xs) (sorted ys) := by
  have hlength : (sorted xs).length = (sorted ys).length := by
    rw [length_sorted, length_sorted, h.length_eq]
  refine List.forall₂_iff_get.mpr ⟨hlength, fun k hx hy => ?_⟩
  -- At least as many of the `x` as of the `y` are at most the bound, and of these there are more
  -- than `k`.
  set c : ℚ := (sorted ys).get ⟨k, hy⟩
  have hcount : k < ys.countP fun y => decide (y ≤ c) := by
    rw [← (sorted_perm_self ys).countP_eq]
    exact lt_countP_le (pairwise_sorted ys) (List.getElem?_eq_getElem hy) (le_refl c)
  have hmore : ys.countP (fun y => decide (y ≤ c)) ≤ xs.countP fun x => decide (x ≤ c) :=
    countP_le_of_forall₂ h fun x y hxy hyc =>
      decide_eq_true (le_trans hxy (of_decide_eq_true hyc))
  have hbelow : k < (sorted xs).countP fun x => decide (x ≤ c) := by
    rw [(sorted_perm_self xs).countP_eq]
    exact Nat.lt_of_lt_of_le hcount hmore
  refine of_decide_eq_true ((lt_countP_iff (comesFirst_le (pairwise_sorted xs) c) ?_).mp hbelow)
  exact List.getElem?_eq_getElem hx

end RunCompare.Stats
