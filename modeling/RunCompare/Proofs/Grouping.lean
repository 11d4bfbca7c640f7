/-
What grouping by a key does to a list.

`Grouped` is the invariant of the pass: every group holds exactly the items seen
so far with its key, in their order, every key seen so far has a group, and the
groups stand in the order in which their keys were first seen.  One item more
either joins the group of its key or opens a new one at the end, and both keep
the invariant; `grouped_groupBy` is the whole pass.

Nothing here depends on what the items are, so the same lemmas serve the groups
of runs and the groups of files.
-/
import RunCompare.Grouping
import Mathlib.Data.List.Induction
import Mathlib.Data.List.Nodup

namespace RunCompare

variable {κ τ : Type} [DecidableEq κ]

/-- The position of the first item with a key, the length of the list if there is none. -/
def firstAt (key : τ → κ) (items : List τ) (k : κ) : Nat :=
  items.findIdx fun x => decide (key x = k)

/-- The items with a key, in order. -/
def itemsWith (key : τ → κ) (items : List τ) (k : κ) : List τ :=
  items.filter fun x => decide (key x = k)

/-- The groups are those of the items by the key, in order of first appearance. -/
structure Grouped (key : τ → κ) (items : List τ) (groups : List (Group κ τ)) : Prop where
  /-- A group holds the items with its key, in order. -/
  members : ∀ g ∈ groups, g.members = itemsWith key items g.key
  /-- Every key that occurs has a group. -/
  covers : ∀ x ∈ items, key x ∈ groups.map (·.key)
  /-- Groups stand in the order of their first items. -/
  ordered : groups.Pairwise fun g h => firstAt key items g.key < firstAt key items h.key

theorem firstAt_lt_length {key : τ → κ} {items : List τ} {k : κ} (h : k ∈ items.map key) :
    firstAt key items k < items.length := by
  obtain ⟨x, hx, rfl⟩ := List.mem_map.mp h
  exact List.findIdx_lt_length_of_exists ⟨x, hx, by simp⟩

/-- An item at the end does not move the first item with a key that occurs before. -/
theorem firstAt_append_of_mem {key : τ → κ} {items : List τ} {k : κ} (x : τ)
    (h : k ∈ items.map key) : firstAt key (items ++ [x]) k = firstAt key items k := by
  have hlt := firstAt_lt_length h
  unfold firstAt at hlt ⊢
  rw [List.findIdx_append, if_pos hlt]

/-- The first item with a new key is the one at the end. -/
theorem firstAt_append_self {key : τ → κ} {items : List τ} {x : τ}
    (h : key x ∉ items.map key) : firstAt key (items ++ [x]) (key x) = items.length := by
  have hnone : items.findIdx (fun y => decide (key y = key x)) = items.length := by
    refine List.findIdx_eq_length_of_false fun y hy => ?_
    exact decide_eq_false fun heq => h (List.mem_map.mpr ⟨y, hy, heq⟩)
  unfold firstAt
  rw [List.findIdx_append, hnone, if_neg (Nat.lt_irrefl _)]
  simp

namespace Grouped

variable {key : τ → κ} {items : List τ} {groups : List (Group κ τ)}

theorem distinct (h : Grouped key items groups) : (groups.map (·.key)).Nodup := by
  rw [List.Nodup, List.pairwise_map]
  exact h.ordered.imp fun hlt heq => absurd hlt (by rw [heq]; exact Nat.lt_irrefl _)

theorem first_mem (h : Grouped key items groups) {g : Group κ τ} (hg : g ∈ groups) :
    g.first ∈ items ∧ key g.first = g.key := by
  have hmem : g.first ∈ itemsWith key items g.key := by
    rw [← h.members g hg]
    exact List.mem_cons_self
  obtain ⟨hitem, hkey⟩ := List.mem_filter.mp hmem
  exact ⟨hitem, by simpa using hkey⟩

/-- The keys of the groups are the keys that occur. -/
theorem mem_keys (h : Grouped key items groups) {k : κ} :
    k ∈ groups.map (·.key) ↔ k ∈ items.map key := by
  constructor
  · intro hk
    obtain ⟨g, hg, rfl⟩ := List.mem_map.mp hk
    obtain ⟨hitem, hkey⟩ := h.first_mem hg
    exact List.mem_map.mpr ⟨g.first, hitem, hkey⟩
  · intro hk
    obtain ⟨x, hx, rfl⟩ := List.mem_map.mp hk
    exact h.covers x hx

end Grouped

/-! ### One item more -/

namespace Group

/-- The group with an item put at its end if it has the key. -/
def extend (k : κ) (item : τ) (g : Group κ τ) : Group κ τ :=
  if g.key = k then { g with rest := g.rest ++ [item] } else g

@[simp] theorem extend_key (k : κ) (item : τ) (g : Group κ τ) : (g.extend k item).key = g.key := by
  unfold extend
  split <;> rfl

theorem extend_members (k : κ) (item : τ) (g : Group κ τ) :
    (g.extend k item).members = if g.key = k then g.members ++ [item] else g.members := by
  unfold extend
  split <;> simp [members]

theorem place_of_not_mem {k : κ} {item : τ} {groups : List (Group κ τ)}
    (h : k ∉ groups.map (·.key)) : place k item groups = groups ++ [⟨k, item, []⟩] := by
  induction groups with
  | nil => rfl
  | cons g rest ih =>
      simp only [List.map_cons, List.mem_cons, not_or] at h
      rw [place, if_neg (Ne.symm h.1), ih h.2, List.cons_append]

theorem place_of_mem {k : κ} {item : τ} {groups : List (Group κ τ)}
    (hdistinct : (groups.map (·.key)).Nodup) (h : k ∈ groups.map (·.key)) :
    place k item groups = groups.map (extend k item) := by
  induction groups with
  | nil => simp at h
  | cons g rest ih =>
      rw [List.map_cons, List.nodup_cons] at hdistinct
      rw [place, List.map_cons]
      by_cases hk : g.key = k
      · -- No later group has the key, so all of them stay as they are.
        have hrest : rest.map (extend k item) = rest := by
          refine List.map_congr_left (fun g' hg' => if_neg ?_) |>.trans (List.map_id _)
          intro hk'
          exact hdistinct.1 (List.mem_map.mpr ⟨g', hg', hk'.trans hk.symm⟩)
        rw [if_pos hk, hrest, extend, if_pos hk]
      · have hmem : k ∈ rest.map (·.key) := by
          rcases List.mem_cons.mp h with heq | hmem
          · exact absurd heq.symm hk
          · exact hmem
        rw [if_neg hk, ih hdistinct.2 hmem, extend, if_neg hk]

/-- Placing an item adds it, and nothing else, to the members of all groups. -/
theorem members_place_perm (k : κ) (item : τ) (groups : List (Group κ τ)) :
    ((place k item groups).flatMap members).Perm (groups.flatMap members ++ [item]) := by
  induction groups with
  | nil => exact List.Perm.refl _
  | cons g rest ih =>
      rw [place]
      split
      · simp only [List.flatMap_cons, members, List.cons_append, List.append_assoc]
        have hswap : ∀ l, (item :: l).Perm (l ++ [item]) := fun l =>
          (List.perm_append_singleton item l).symm
        exact ((hswap _).append_left g.rest).cons g.first
      · rw [List.flatMap_cons, List.flatMap_cons, List.append_assoc]
        exact ih.append_left g.members

end Group

/-- **One item more keeps the groups those of the items.** -/
theorem Grouped.place {key : τ → κ} {items : List τ} {groups : List (Group κ τ)}
    (h : Grouped key items groups) (x : τ) :
    Grouped key (items ++ [x]) (Group.place (key x) x groups) := by
  by_cases hmem : key x ∈ groups.map (·.key)
  · rw [Group.place_of_mem h.distinct hmem]
    refine ⟨?_, ?_, ?_⟩
    · intro g' hg'
      obtain ⟨g, hg, rfl⟩ := List.mem_map.mp hg'
      rw [Group.extend_key, Group.extend_members, h.members g hg]
      by_cases hk : g.key = key x
      · simp [itemsWith, hk]
      · simp [itemsWith, hk, Ne.symm hk]
    · intro y hy
      have hkeys : (groups.map (Group.extend (key x) x)).map (·.key) = groups.map (·.key) := by
        simp [Function.comp_def]
      rw [hkeys]
      rcases List.mem_append.mp hy with hy | hy
      · exact h.covers y hy
      · rw [List.mem_singleton.mp hy]
        exact hmem
    · rw [List.pairwise_map]
      refine h.ordered.imp_of_mem fun {g g'} hg hg' hlt => ?_
      have hold : ∀ g ∈ groups, g.key ∈ items.map key := fun g hg =>
        h.mem_keys.mp (List.mem_map.mpr ⟨g, hg, rfl⟩)
      rw [Group.extend_key, Group.extend_key, firstAt_append_of_mem x (hold g hg),
        firstAt_append_of_mem x (hold g' hg')]
      exact hlt
  · have hnew : key x ∉ items.map key := fun hk => hmem (h.mem_keys.mpr hk)
    have hold : ∀ g ∈ groups, g.key ∈ items.map key := fun g hg =>
      h.mem_keys.mp (List.mem_map.mpr ⟨g, hg, rfl⟩)
    rw [Group.place_of_not_mem hmem]
    refine ⟨?_, ?_, ?_⟩
    · intro g hg
      rcases List.mem_append.mp hg with hg | hg
      · have hk : key x ≠ g.key := fun heq => hnew (heq ▸ hold g hg)
        rw [h.members g hg]
        simp [itemsWith, hk]
      · rw [List.mem_singleton.mp hg]
        have hnone : items.filter (fun y => decide (key y = key x)) = [] :=
          List.filter_eq_nil_iff.mpr fun y hy heq =>
            hnew (List.mem_map.mpr ⟨y, hy, by simpa using heq⟩)
        simp [itemsWith, Group.members, hnone]
    · intro y hy
      rcases List.mem_append.mp hy with hy | hy
      · simp [h.covers y hy]
      · simp [List.mem_singleton.mp hy]
    · refine List.pairwise_append.mpr ⟨?_, List.pairwise_singleton _ _, ?_⟩
      · refine h.ordered.imp_of_mem fun {g g'} hg hg' hlt => ?_
        rw [firstAt_append_of_mem x (hold g hg), firstAt_append_of_mem x (hold g' hg')]
        exact hlt
      · intro g hg g' hg'
        rw [List.mem_singleton.mp hg', firstAt_append_of_mem x (hold g hg),
          firstAt_append_self hnew]
        exact firstAt_lt_length (hold g hg)

/-! ### The whole pass -/

theorem groupBy_concat (key : τ → κ) (items : List τ) (x : τ) :
    groupBy key (items ++ [x]) = Group.place (key x) x (groupBy key items) := by
  unfold groupBy
  rw [List.foldl_append]
  rfl

/-- **Grouping gives the groups of the items, in order of first appearance.** -/
theorem grouped_groupBy (key : τ → κ) (items : List τ) : Grouped key items (groupBy key items) := by
  induction items using List.reverseRecOn with
  | nil => exact ⟨by simp [groupBy], by simp, List.Pairwise.nil⟩
  | append_singleton items x ih =>
      rw [groupBy_concat]
      exact ih.place x

/-- Grouping loses no item and repeats none. -/
theorem members_groupBy_perm (key : τ → κ) (items : List τ) :
    ((groupBy key items).flatMap Group.members).Perm items := by
  induction items using List.reverseRecOn with
  | nil => exact List.Perm.refl _
  | append_singleton items x ih =>
      rw [groupBy_concat]
      exact (Group.members_place_perm _ _ _).trans (ih.append_right [x])

/-! ### Items that are replaced -/

variable {σ : Type}

/-- The group with each item replaced. -/
def Group.map (f : σ → τ) (g : Group κ σ) : Group κ τ := ⟨g.key, f g.first, g.rest.map f⟩

omit [DecidableEq κ] in
@[simp] theorem Group.members_map (f : σ → τ) (g : Group κ σ) :
    (g.map f).members = g.members.map f := rfl

theorem Group.place_map (f : σ → τ) (k : κ) (x : σ) (groups : List (Group κ σ)) :
    Group.place k (f x) (groups.map (Group.map f)) = (Group.place k x groups).map (Group.map f) := by
  induction groups with
  | nil => rfl
  | cons g rest ih =>
      have hkey : (g.map f).key = g.key := rfl
      rw [List.map_cons, Group.place, Group.place, hkey]
      by_cases hk : g.key = k
      · rw [if_pos hk, if_pos hk]
        simp [Group.map]
      · rw [if_neg hk, if_neg hk, ih, List.map_cons]

/-- Replacing items and grouping them can change places. -/
theorem groupBy_map (key : τ → κ) (f : σ → τ) (items : List σ) :
    groupBy key (items.map f) = (groupBy (key ∘ f) items).map (Group.map f) := by
  induction items using List.reverseRecOn with
  | nil => rfl
  | append_singleton items x ih =>
      rw [List.map_append, List.map_singleton, groupBy_concat, groupBy_concat, ih]
      exact Group.place_map f (key (f x)) x _

end RunCompare
