/-
Values that are written alike.

`Covers` says of two values that wherever the one has a leaf the other has one
too, with exceptions.  It goes through objects field by field
(`covers_object`), and holds of two records of atoms with the same keys
whatever the atoms are, so a number and its absence are written alike.
-/
import RunCompare.Comparison.Json
import RunCompare.Proofs.Json.Leaves
import RunCompare.Proofs.Pointwise

namespace RunCompare

variable {α : Type}

namespace Json

/-- A value has a leaf at a path. -/
def HasLeaf (v : Json α) (path : List String) : Prop := ∃ leaf, LeafAt v path leaf

/-- A value that is neither an object nor an array. -/
def IsAtom (v : Json α) : Prop := (∀ entries, v ≠ .obj entries) ∧ ∀ elements, v ≠ .arr elements

/-- A leaf is an atom. -/
theorem LeafAt.isAtom {v leaf : Json α} {path : List String} (h : LeafAt v path leaf) :
    leaf.IsAtom := by
  induction h with
  | here notObject notArray => exact ⟨notObject, notArray⟩
  | inside _ _ ih => exact ih

/-- Where one value has a leaf the other has one too, or the path is an exception. -/
def Covers (except : List String → Prop) (v v' : Json α) : Prop :=
  ∀ path, v.HasLeaf path → v'.HasLeaf path ∨ except path

@[simp] theorem isAtom_null : (.null : Json α).IsAtom := by
  constructor <;> (intro _ h; cases h)

@[simp] theorem isAtom_bool (b : Bool) : (.bool b : Json α).IsAtom := by
  constructor <;> (intro _ h; cases h)

@[simp] theorem isAtom_nat (n : Nat) : (Json.nat n : Json α).IsAtom := by
  constructor <;> (intro _ h; cases h)

section

variable [Scalar α]

@[simp] theorem isAtom_ofScalar (x : α) : (ofScalar x).IsAtom := by
  unfold ofScalar
  split <;> constructor <;> (intro _ h; cases h)

@[simp] theorem isAtom_ofNumber? (x : Option α) : (ofNumber? x).IsAtom := by
  cases x with
  | none => exact isAtom_null
  | some x => exact isAtom_ofScalar x

end

variable {except : List String → Prop}

theorem hasLeaf_atom {v : Json α} (h : v.IsAtom) {path : List String} :
    v.HasLeaf path ↔ path = [] := by
  constructor
  · rintro ⟨leaf, hleaf⟩
    cases hleaf with
    | here _ _ => rfl
    | inside _ _ => exact absurd rfl (h.1 _)
  · rintro rfl
    exact ⟨v, LeafAt.here h.1 h.2⟩

theorem hasLeaf_ofMap {m : KeyMap (Json α)} {path : List String} : (ofMap m).HasLeaf path ↔
    ∃ k v rest, path = k :: rest ∧ m.get? k = some v ∧ v.HasLeaf rest := by
  unfold HasLeaf
  simp only [leafAt_ofMap]
  constructor
  · rintro ⟨leaf, k, v, rest, hpath, hv, hleaf⟩
    exact ⟨k, v, rest, hpath, hv, leaf, hleaf⟩
  · rintro ⟨k, v, rest, hpath, hv, leaf, hleaf⟩
    exact ⟨leaf, k, v, rest, hpath, hv, hleaf⟩

theorem Covers.refl (v : Json α) : Covers except v v := fun _ h => Or.inl h

theorem covers_atom {v v' : Json α} (h : v.IsAtom) (h' : v'.IsAtom) : Covers except v v' := by
  intro path hpath
  rw [hasLeaf_atom h] at hpath
  exact Or.inl ((hasLeaf_atom h').mpr hpath)

/-- An array has no leaf. -/
theorem covers_arr (elements : List (Json α)) (v' : Json α) : Covers except (.arr elements) v' := by
  rintro path ⟨leaf, hleaf⟩
  cases hleaf with
  | here _ notArray => exact absurd rfl (notArray elements)

theorem covers_ofMap {m m' : KeyMap (Json α)}
    (h : ∀ k v, m.get? k = some v → ∃ v', m'.get? k = some v' ∧
      Covers (fun rest => except (k :: rest)) v v') : Covers except (ofMap m) (ofMap m') := by
  intro path hpath
  obtain ⟨k, v, rest, rfl, hv, hleaf⟩ := hasLeaf_ofMap.mp hpath
  obtain ⟨v', hv', hcovers⟩ := h k v hv
  rcases hcovers rest hleaf with hleaf' | hexcept
  · exact Or.inl (hasLeaf_ofMap.mpr ⟨k, v', rest, rfl, hv', hleaf'⟩)
  · exact Or.inr hexcept

/-- Objects with the same keys cover each other field by field. -/
theorem covers_object {fields fields' : List (String × Json α)}
    (hdistinct : (fields.map (·.1)).Nodup)
    (h : List.Forall₂ (fun e e' => e.1 = e'.1 ∧ Covers (fun rest => except (e.1 :: rest)) e.2 e'.2)
      fields fields') : Covers except (object fields) (object fields') := by
  have hkeys : fields.map (·.1) = fields'.map (·.1) := map_eq_of_forall₂ h fun _ _ he => he.1
  refine covers_ofMap fun k v hv => ?_
  obtain ⟨⟨k', v'⟩, hmem', hk, hcovers⟩ :=
    exists_of_forall₂_of_mem h.flip (KeyMap.mem_of_get?_ofList hv)
  cases hk
  exact ⟨v', KeyMap.get?_ofList_of_mem (hkeys ▸ hdistinct) hmem', hcovers⟩

/-! ### Values that a table can hold -/

/-- A value whose leaves are told apart by the texts of their paths. -/
structure Tabular (v : Json α) : Prop where
  distinct : v.DistinctKeys
  undotted : v.Undotted

theorem Tabular.of_isAtom {v : Json α} (h : v.IsAtom) : v.Tabular :=
  ⟨EveryObject.leaf h.1, EveryObject.leaf h.1⟩

theorem tabular_arr (elements : List (Json α)) : (.arr elements : Json α).Tabular :=
  ⟨EveryObject.leaf nofun, EveryObject.leaf nofun⟩

theorem tabular_ofMap {m : KeyMap (Json α)}
    (h : ∀ k v, m.get? k = some v → '.' ∉ k.toList ∧ v.Tabular) : (ofMap m).Tabular :=
  ⟨distinctKeys_ofMap fun k v hv => (h k v hv).2.distinct,
    undotted_ofMap fun k v hv => ⟨(h k v hv).1, (h k v hv).2.undotted⟩⟩

theorem tabular_object {fields : List (String × Json α)}
    (h : ∀ e ∈ fields, '.' ∉ e.1.toList ∧ e.2.Tabular) : (object fields).Tabular :=
  tabular_ofMap fun k v hv => h (k, v) (KeyMap.mem_of_get?_ofList hv)

theorem leafAt_object_cons {fields : List (String × Json α)} {k : String} {v leaf : Json α}
    (hdistinct : (fields.map (·.1)).Nodup) (hmem : (k, v) ∈ fields) {rest : List String} :
    LeafAt (object fields) (k :: rest) leaf ↔ LeafAt v rest leaf := by
  have hv : (KeyMap.ofList fields).get? k = some v := KeyMap.get?_ofList_of_mem hdistinct hmem
  constructor
  · intro h
    obtain ⟨k', v', rest', hpath, hv', hleaf⟩ := leafAt_ofMap.mp h
    cases hpath
    rw [hv] at hv'
    cases hv'
    exact hleaf
  · intro h
    exact leafAt_ofMap.mpr ⟨k, v, rest, rfl, hv, h⟩

/-! ### Records of atoms -/

/-- Fields with the given keys, none of which holds an object or an array. -/
structure AtomFields (keys : List String) (fields : List (String × Json α)) : Prop where
  keys : fields.map (·.1) = keys
  atoms : ∀ e ∈ fields, e.2.IsAtom

namespace AtomFields

variable {keys : List String} {fields fields' : List (String × Json α)}

theorem forall₂ (h : AtomFields keys fields) (h' : AtomFields keys fields') :
    List.Forall₂ (fun e e' => e.1 = e'.1 ∧ Covers (fun rest => except (e.1 :: rest)) e.2 e'.2)
      fields fields' := by
  have hkeys : fields.map (·.1) = fields'.map (·.1) := h.keys.trans h'.keys.symm
  rw [← List.forall₂_eq_eq_eq, List.forall₂_map_left_iff, List.forall₂_map_right_iff] at hkeys
  refine List.forall₂_iff_zip.mpr ⟨hkeys.length_eq, fun {e e'} hmem => ?_⟩
  refine ⟨(List.forall₂_iff_zip.mp hkeys).2 hmem, covers_atom ?_ ?_⟩
  · exact h.atoms e (List.of_mem_zip hmem).1
  · exact h'.atoms e' (List.of_mem_zip hmem).2

theorem covers (h : AtomFields keys fields) (h' : AtomFields keys fields') (hdistinct : keys.Nodup) :
    Covers except (object fields) (object fields') :=
  covers_object (h.keys ▸ hdistinct) (h.forall₂ h')

theorem tabular (h : AtomFields keys fields) (hkeys : ∀ k ∈ keys, '.' ∉ k.toList) :
    (object fields).Tabular := by
  refine tabular_object fun e he => ⟨hkeys e.1 ?_, Tabular.of_isAtom (h.atoms e he)⟩
  rw [← h.keys]
  exact List.mem_map.mpr ⟨e, he, rfl⟩

end AtomFields

end Json

end RunCompare
