/-
Grouping through an index of slots.

`groupBy` walks the groups for every item.  A faster pass keeps, beside the
groups, an index that tells the slot of every key seen so far, and puts an item
where the index says.  What it needs is that the index never points past the
groups, and that is what is proved: the index tells the place of the key among
the groups (`Indexes`), every item keeps it so, and the pass gives the groups
that `groupBy` gives.  Reading a slot that is not there would leave the pass
without a result.
-/
import RunCompare.Proofs.Grouping
import Mathlib.Logic.Function.Basic

namespace RunCompare

variable {κ τ : Type} [DecidableEq κ]

/-- Groups by slot, and the slot of every key seen so far. -/
structure Slots (κ τ : Type) where
  index : κ → Option Nat
  groups : List (κ × List τ)

namespace Slots

/-- No slots. -/
def empty : Slots κ τ := ⟨fun _ => none, []⟩

/-- Puts an item into the slot of its key, or into a new one at the end; no result if the index
points to a slot that is not there. -/
def put (key : κ) (item : τ) (s : Slots κ τ) : Option (Slots κ τ) :=
  match s.index key with
  | some slot => do
    let group ← s.groups[slot]?
    return { s with groups := s.groups.set slot (group.1, group.2 ++ [item]) }
  | none =>
    some {
      index := Function.update s.index key (some s.groups.length)
      groups := s.groups ++ [(key, [item])] }

/-- The groups of a list by a key, through slots. -/
def groupBy (key : τ → κ) (items : List τ) : Option (List (κ × List τ)) := do
  let s ← items.foldlM (fun s item => s.put (key item) item) empty
  return s.groups

/-- The slots hold some groups, and the index tells where. -/
structure Indexes (s : Slots κ τ) (groups : List (Group κ τ)) : Prop where
  /-- A key is found in the slot of its group. -/
  index : ∀ k, s.index k = (groups.map (·.key)).idxOf? k
  /-- The slots hold the keys and the members. -/
  groups : s.groups = groups.map fun g => (g.key, g.members)

end Slots

/-! ### One item more -/

namespace Group

/-- Known keys stay where they are. -/
theorem keys_place_of_mem {k : κ} (item : τ) {groups : List (Group κ τ)}
    (h : k ∈ groups.map (·.key)) : (place k item groups).map (·.key) = groups.map (·.key) := by
  induction groups with
  | nil => simp at h
  | cons g rest ih =>
      rw [place]
      by_cases hk : g.key = k
      · rw [if_pos hk]
        rfl
      · have hmem : k ∈ rest.map (·.key) := by
          rcases List.mem_cons.mp h with heq | hmem
          · exact absurd heq.symm hk
          · exact hmem
        rw [if_neg hk, List.map_cons, List.map_cons, ih hmem]

/-- A known key has a slot, and its item goes to the end of the members there. -/
theorem place_of_slot {k : κ} {slot : Nat} {groups : List (Group κ τ)} (item : τ)
    (h : (groups.map (·.key)).idxOf? k = some slot) :
    ∃ members, (groups.map fun g => (g.key, g.members))[slot]? = some (k, members) ∧
      (place k item groups).map (fun g => (g.key, g.members)) =
        (groups.map fun g => (g.key, g.members)).set slot (k, members ++ [item]) := by
  induction groups generalizing slot with
  | nil => simp at h
  | cons g rest ih =>
      rw [List.map_cons, List.idxOf?_cons] at h
      rw [place]
      by_cases hk : g.key = k
      · rw [if_pos (beq_iff_eq.mpr hk), Option.some.injEq] at h
        subst h
        rw [if_pos hk]
        exact ⟨g.members, by simp [hk], by simp [hk, members]⟩
      · rw [if_neg (mt beq_iff_eq.mp hk)] at h
        obtain ⟨i, hi, rfl⟩ := Option.map_eq_some_iff.mp h
        obtain ⟨members, hread, hset⟩ := ih hi
        rw [if_neg hk]
        exact ⟨members, by simpa using hread, by simp [hset]⟩

end Group

/-- A new key comes last, and moves no other key. -/
theorem idxOf?_concat {keys : List κ} {k : κ} (h : k ∉ keys) (k' : κ) :
    (keys ++ [k]).idxOf? k' = if k' = k then some keys.length else keys.idxOf? k' := by
  induction keys with
  | nil =>
      by_cases hk' : k' = k
      · simp [List.idxOf?_cons, hk']
      · simp [List.idxOf?_cons, hk', Ne.symm hk']
  | cons a rest ih =>
      obtain ⟨ha, hrest⟩ := not_or.mp (mt List.mem_cons.mpr h)
      rw [List.cons_append, List.idxOf?_cons, List.idxOf?_cons, ih hrest]
      by_cases hk' : k' = k
      · subst hk'
        simp [Ne.symm ha]
      · simp [hk']

namespace Slots

variable {s : Slots κ τ} {groups : List (Group κ τ)}

/-- **An item finds its slot, and the index stays right.** -/
theorem Indexes.put (h : Indexes s groups) (k : κ) (item : τ) :
    ∃ s', s.put k item = some s' ∧ Indexes s' (Group.place k item groups) := by
  cases hslot : (groups.map (·.key)).idxOf? k with
  | some slot =>
      obtain ⟨members, hread, hset⟩ := Group.place_of_slot item hslot
      have hmem : k ∈ groups.map (·.key) := by
        refine Classical.byContradiction fun hk => ?_
        rw [List.idxOf?_eq_none_iff.mpr hk] at hslot
        cases hslot
      rw [← h.groups] at hread hset
      refine ⟨{ s with groups := s.groups.set slot (k, members ++ [item]) }, ?_, ?_, hset.symm⟩
      · simp [Slots.put, h.index, hslot, hread]
      · intro k'
        rw [Group.keys_place_of_mem item hmem]
        exact h.index k'
  | none =>
      have hmem := List.idxOf?_eq_none_iff.mp hslot
      refine ⟨⟨Function.update s.index k (some s.groups.length), s.groups ++ [(k, [item])]⟩,
        by simp [Slots.put, h.index, hslot], ?_, ?_⟩
      · intro k'
        show Function.update s.index k (some s.groups.length) k' = _
        rw [Group.place_of_not_mem hmem, List.map_append, List.map_singleton, idxOf?_concat hmem,
          Function.update_apply, h.index k', h.groups, List.length_map, List.length_map]
      · rw [Group.place_of_not_mem hmem, List.map_append, h.groups]
        rfl

/-- **The pass through slots gives the groups.** -/
theorem groupBy_eq (key : τ → κ) (items : List τ) :
    Slots.groupBy key items =
      some ((RunCompare.groupBy key items).map fun g => (g.key, g.members)) := by
  have hrun : ∃ s, items.foldlM (fun s item => s.put (key item) item) empty = some s ∧
      Indexes s (RunCompare.groupBy key items) := by
    induction items using List.reverseRecOn with
    | nil => exact ⟨empty, rfl, fun _ => rfl, rfl⟩
    | append_singleton items x ih =>
        obtain ⟨s, hs, hindexes⟩ := ih
        obtain ⟨s', hs', hindexes'⟩ := hindexes.put (key x) x
        refine ⟨s', ?_, ?_⟩
        · rw [List.foldlM_append, hs]
          simp [hs']
        · rw [groupBy_concat]
          exact hindexes'
  obtain ⟨s, hs, hindexes⟩ := hrun
  rw [Slots.groupBy, hs, ← hindexes.groups]
  rfl

end Slots

end RunCompare
