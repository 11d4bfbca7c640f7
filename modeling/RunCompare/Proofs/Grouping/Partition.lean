/-
Grouping as a partition of the items.

`PartitionedBy` says what the groups of a list by a key are without saying how
they come about: each key that occurs once, at the place of its first
appearance, and with it the items that have the key, as they stand in the list.
The keys alone decide their order, since no two of them appear first at one
place, and a key decides the items of its group, so there is one such partition
and no other (`PartitionedBy.unique`).  The pass that places item after item
finds it, and so does the pass through an index of slots
(`groupBy_partitions`).
-/
import RunCompare.Proofs.Indices.Slots

namespace RunCompare

variable {κ τ : Type} [DecidableEq κ]

/-- The groups of a list by a key, each as its key and its items. -/
def keyedItems (key : τ → κ) (items : List τ) : List (κ × List τ) :=
  (groupBy key items).map fun g => (g.key, g.members)

/-- Lists of items with their keys are the groups of a list, in order of first appearance. -/
structure PartitionedBy (key : τ → κ) (items : List τ) (groups : List (κ × List τ)) : Prop where
  /-- No key has two groups. -/
  distinct : (groups.map (·.1)).Nodup
  /-- The keys are those that occur. -/
  occurs : ∀ k, k ∈ groups.map (·.1) ↔ k ∈ items.map key
  /-- They are listed in the order in which each of them first appears. -/
  ordered : (groups.map (·.1)).Pairwise fun k k' => firstAt key items k < firstAt key items k'
  /-- With a key are the items that have it, in their order. -/
  members : ∀ g ∈ groups, g.2 = itemsWith key items g.1
  /-- No group is empty. -/
  nonempty : ∀ g ∈ groups, g.2 ≠ []
  /-- Every item is in one group, once. -/
  perm : (groups.flatMap (·.2)).Perm items

/-! ### The partition is determined -/

namespace PartitionedBy

variable {key : τ → κ} {items : List τ} {groups groups' : List (κ × List τ)}

/-- The keys are listed in one order only. -/
theorem keys_unique (h : PartitionedBy key items groups) (h' : PartitionedBy key items groups') :
    groups.map (·.1) = groups'.map (·.1) := by
  have hperm : (groups.map (·.1)).Perm (groups'.map (·.1)) :=
    (List.perm_ext_iff_of_nodup h.distinct h'.distinct).mpr fun k =>
      (h.occurs k).trans (h'.occurs k).symm
  refine List.Perm.eq_of_pairwise ?_ h.ordered h'.ordered hperm
  intro k k' _ _ hlt hlt'
  exact absurd hlt' (Nat.lt_asymm hlt)

/-- The groups are their keys, each with its items. -/
theorem eq_map_keys (h : PartitionedBy key items groups) :
    groups = (groups.map (·.1)).map fun k => (k, itemsWith key items k) := by
  rw [List.map_map]
  refine (List.map_id groups).symm.trans (List.map_congr_left fun g hg => ?_)
  exact Prod.ext rfl (h.members g hg)

/-- **A list is partitioned by a key in one way only.** -/
theorem unique (h : PartitionedBy key items groups) (h' : PartitionedBy key items groups') :
    groups = groups' := by
  rw [h.eq_map_keys, h.keys_unique h', ← h'.eq_map_keys]

end PartitionedBy

/-! ### Both passes find it -/

theorem partitionedBy_keyedItems (key : τ → κ) (items : List τ) :
    PartitionedBy key items (keyedItems key items) := by
  have hgrouped := grouped_groupBy key items
  have hkeys : (keyedItems key items).map (·.1) = (groupBy key items).map (·.key) := by
    rw [keyedItems, List.map_map]
    rfl
  refine ⟨?_, ?_, ?_, ?_, ?_, ?_⟩
  · rw [hkeys]
    exact hgrouped.distinct
  · intro k
    rw [hkeys]
    exact hgrouped.mem_keys
  · rw [hkeys, List.pairwise_map]
    exact hgrouped.ordered
  · intro pair hpair
    obtain ⟨g, hg, rfl⟩ := List.mem_map.mp hpair
    exact hgrouped.members g hg
  · intro pair hpair
    obtain ⟨g, -, rfl⟩ := List.mem_map.mp hpair
    exact List.cons_ne_nil g.first g.rest
  · rw [keyedItems, List.flatMap_map]
    exact members_groupBy_perm key items

/--
**Grouping partitions a list by a key, in order of first appearance.**

There is no other partition of this kind, and the pass that looks up the slot of
each key in an index never finds a slot missing and comes to the same groups.
-/
theorem groupBy_partitions (key : τ → κ) (items : List τ) :
    PartitionedBy key items (keyedItems key items) ∧
      Slots.groupBy key items = some (keyedItems key items) ∧
        ∃! groups, PartitionedBy key items groups := by
  have hpartition := partitionedBy_keyedItems key items
  refine ⟨hpartition, Slots.groupBy_eq key items, keyedItems key items, hpartition, ?_⟩
  intro groups hgroups
  exact hgroups.unique hpartition

/-- Items of three keys, mixed: each item joins the group that its key opened. -/
example : keyedItems (· % 10) [13, 21, 33, 12, 41, 53] =
    [(3, [13, 33, 53]), (1, [21, 41]), (2, [12])] := by
  decide

end RunCompare
