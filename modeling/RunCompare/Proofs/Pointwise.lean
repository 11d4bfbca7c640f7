/-
Lists that are related item by item.

A pass over a list that may fail is described by relating each result to its
item, and a stable sort is described by what it does to the items of one rank.
Both are stated once here for lists of anything.
-/
import Mathlib.Data.List.Forall2
import Mathlib.Data.List.Sort

namespace RunCompare

variable {β γ ε : Type}

/-- A pass that succeeds at every item succeeds, with the results item by item. -/
theorem mapM_ok_of_forall {f : β → Except ε γ} {P : β → γ → Prop} {xs : List β}
    (h : ∀ x ∈ xs, ∃ y, f x = .ok y ∧ P x y) :
    ∃ ys, xs.mapM f = .ok ys ∧ List.Forall₂ P xs ys := by
  induction xs with
  | nil => exact ⟨[], rfl, List.Forall₂.nil⟩
  | cons x rest ih =>
      obtain ⟨y, hy, hP⟩ := h x List.mem_cons_self
      obtain ⟨ys, hys, hrel⟩ := ih fun z hz => h z (List.mem_cons_of_mem _ hz)
      refine ⟨y :: ys, ?_, List.Forall₂.cons hP hrel⟩
      rw [List.mapM_cons, hy, hys]
      rfl

/-- Two passes that succeed at every item with two views of one result succeed with two views of
one list of results. -/
theorem mapM_ok_both {δ : Type} {f f' : β → Except ε γ} {p q : δ → γ} {xs : List β}
    (h : ∀ x ∈ xs, ∃ z, f x = .ok (p z) ∧ f' x = .ok (q z)) :
    ∃ zs : List δ, xs.mapM f = .ok (zs.map p) ∧ xs.mapM f' = .ok (zs.map q) := by
  induction xs with
  | nil => exact ⟨[], rfl, rfl⟩
  | cons x rest ih =>
      obtain ⟨z, hz, hz'⟩ := h x List.mem_cons_self
      obtain ⟨zs, hzs, hzs'⟩ := ih fun y hy => h y (List.mem_cons_of_mem _ hy)
      refine ⟨z :: zs, ?_, ?_⟩
      · rw [List.mapM_cons, hz, hzs]
        rfl
      · rw [List.mapM_cons, hz', hzs']
        rfl

/-- A pass succeeds exactly with the results item by item. -/
theorem mapM_eq_ok_iff {f : β → Except ε γ} {xs : List β} {ys : List γ} :
    xs.mapM f = .ok ys ↔ List.Forall₂ (fun x y => f x = .ok y) xs ys := by
  constructor
  · intro h
    induction xs generalizing ys with
    | nil =>
        cases h
        exact List.Forall₂.nil
    | cons x rest ih =>
        rw [List.mapM_cons] at h
        cases hx : f x with
        | error e =>
            rw [hx] at h
            cases h
        | ok y =>
            cases hrest : rest.mapM f with
            | error e =>
                rw [hx, hrest] at h
                cases h
            | ok zs =>
                rw [hx, hrest] at h
                cases h
                exact List.Forall₂.cons hx (ih hrest)
  · intro h
    induction h with
    | nil => rfl
    | cons hx _ ih =>
        rw [List.mapM_cons, hx, ih]
        rfl

/-- A pass fails exactly with the error at the first item that has one. -/
theorem mapM_eq_error_iff {f : β → Except ε γ} {xs : List β} {e : ε} :
    xs.mapM f = .error e ↔ ∃ before x after, xs = before ++ x :: after ∧
      (∀ y ∈ before, ∃ z, f y = .ok z) ∧ f x = .error e := by
  constructor
  · intro h
    induction xs with
    | nil => cases h
    | cons x rest ih =>
        rw [List.mapM_cons] at h
        cases hx : f x with
        | error e' =>
            rw [hx] at h
            cases h
            exact ⟨[], x, rest, rfl, by simp, hx⟩
        | ok y =>
            cases hrest : rest.mapM f with
            | ok zs =>
                rw [hx, hrest] at h
                cases h
            | error e' =>
                rw [hx, hrest] at h
                cases h
                obtain ⟨before, x', after, hsplit, hbefore, hx'⟩ := ih hrest
                refine ⟨x :: before, x', after, by rw [hsplit]; rfl, ?_, hx'⟩
                exact List.forall_mem_cons.mpr ⟨⟨y, hx⟩, hbefore⟩
  · rintro ⟨before, x, after, rfl, hbefore, hx⟩
    induction before with
    | nil =>
        rw [List.nil_append, List.mapM_cons, hx]
        rfl
    | cons y rest ih =>
        obtain ⟨⟨z, hy⟩, hrest⟩ := List.forall_mem_cons.mp hbefore
        rw [List.cons_append, List.mapM_cons, hy, ih hrest]
        rfl

/-- A pass for its errors only is a pass whose results are thrown away. -/
theorem forM_eq_map_mapM (f : β → Except ε Unit) (xs : List β) :
    xs.forM f = (xs.mapM f).map fun _ => () := by
  induction xs with
  | nil => rfl
  | cons x rest ih =>
      rw [List.forM_eq_forM, List.forM_cons, List.mapM_cons, ← List.forM_eq_forM, ih]
      cases f x with
      | error e => rfl
      | ok u =>
          cases rest.mapM f with
          | error e => rfl
          | ok us => rfl

/-- An item of a filtered list has a place in the list before which only earlier items are kept. -/
theorem exists_place_of_filter_eq {p : β → Bool} {xs before after : List β} {x : β}
    (h : xs.filter p = before ++ x :: after) :
    ∃ i : Nat, xs[i]? = some x ∧
      ∀ (j : Nat) (y : β), xs[j]? = some y → p y = true → j < i → y ∈ before := by
  obtain ⟨start, tail, rfl, hstart, htail⟩ := List.filter_eq_append_iff.mp h
  obtain ⟨others, rest, rfl, hothers, -, -⟩ := List.filter_eq_cons_iff.mp htail
  rw [← List.append_assoc]
  refine ⟨(start ++ others).length, by simp, fun j y hy hp hlt => ?_⟩
  rw [List.getElem?_append_left hlt] at hy
  rcases List.mem_append.mp (List.mem_of_getElem? hy) with hin | hin
  · rw [← hstart]
    exact List.mem_filter.mpr ⟨hin, hp⟩
  · exact absurd hp (hothers y hin)

/-- A related list has a related item for each item. -/
theorem exists_of_forall₂_of_mem {P : β → γ → Prop} {xs : List β} {ys : List γ}
    (h : List.Forall₂ P xs ys) {y : γ} (hy : y ∈ ys) : ∃ x ∈ xs, P x y := by
  induction h with
  | nil => simp at hy
  | cons hP _ ih =>
      rcases List.mem_cons.mp hy with rfl | hy
      · exact ⟨_, List.mem_cons_self, hP⟩
      · obtain ⟨x, hx, hxy⟩ := ih hy
        exact ⟨x, List.mem_cons_of_mem _ hx, hxy⟩

/-- Values that agree on related items list the same. -/
theorem map_eq_of_forall₂ {δ : Type} {P : β → γ → Prop} {f : β → δ} {g : γ → δ} {xs : List β}
    {ys : List γ} (h : List.Forall₂ P xs ys) (hfg : ∀ x y, P x y → f x = g y) :
    xs.map f = ys.map g := by
  induction h with
  | nil => rfl
  | cons hP _ ih => rw [List.map_cons, List.map_cons, hfg _ _ hP, ih]

/-! ### Stable sorting -/

variable {le : β → β → Bool}

/-- Items that stand level with each other keep their order. -/
theorem filter_mergeSort (trans : ∀ a b c, le a b → le b c → le a c)
    (total : ∀ a b, (le a b || le b a) = true) {p : β → Bool}
    (level : ∀ a b, p a → p b → le a b = true) (xs : List β) :
    (xs.mergeSort le).filter p = xs.filter p := by
  have hsorted : (xs.filter p).Pairwise fun a b => le a b = true :=
    List.pairwise_of_forall_mem_list fun a ha b hb =>
      level a b (List.mem_filter.mp ha).2 (List.mem_filter.mp hb).2
  have hsub : (xs.filter p).Sublist ((xs.mergeSort le).filter p) := by
    have := (List.sublist_mergeSort trans total hsorted List.filter_sublist).filter p
    simpa [List.filter_filter] using this
  exact (hsub.eq_of_length ((List.mergeSort_perm xs le).filter p).length_eq.symm).symm

end RunCompare
