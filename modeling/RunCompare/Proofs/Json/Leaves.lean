/-
The leaves of a JSON value, and what their dotted paths say.

`LeafAt` says without any traversal that a value has a leaf at a path: the keys
of the path lead from object to object, and at the end is a value that is
neither an object nor an array.  `mem_leaves` is that the traversal lists
exactly these.

A path is written as one text, its keys joined by points.  The text tells the
path as long as no key contains a point itself (`rowName_injective`), and a path
tells its leaf as long as no object lists a key twice (`LeafAt.unique`).
-/
import RunCompare.Pivot
import RunCompare.Proofs.FieldPath
import RunCompare.Proofs.KeyMap
import Mathlib.Data.List.Nodup

namespace RunCompare

variable {α : Type}

namespace Json

/-- The keys of a path lead to a leaf: a value that is neither an object nor an array. -/
inductive LeafAt : Json α → List String → Json α → Prop
  | here {v : Json α} (notObject : ∀ entries, v ≠ .obj entries)
      (notArray : ∀ elements, v ≠ .arr elements) : LeafAt v [] v
  | inside {entries : List (String × Json α)} {k : String} {v leaf : Json α} {path : List String}
      (entry : (k, v) ∈ entries) (rest : LeafAt v path leaf) :
      LeafAt (.obj entries) (k :: path) leaf

/-- A property of the list of keys holds of every object that is not inside an array. -/
inductive EveryObject (P : List String → Prop) : Json α → Prop
  | leaf {v : Json α} (notObject : ∀ entries, v ≠ .obj entries) : EveryObject P v
  | obj {entries : List (String × Json α)} (keys : P (entries.map (·.1)))
      (below : ∀ e ∈ entries, EveryObject P e.2) : EveryObject P (.obj entries)

/-- No object lists a key twice. -/
def DistinctKeys (v : Json α) : Prop := EveryObject List.Nodup v

/-- No key of an object contains a point. -/
def Undotted (v : Json α) : Prop := EveryObject (fun keys => ∀ k ∈ keys, '.' ∉ k.toList) v

theorem leafAt_obj {entries : List (String × Json α)} {path : List String} {leaf : Json α} :
    LeafAt (.obj entries) path leaf ↔
      ∃ k v rest, path = k :: rest ∧ (k, v) ∈ entries ∧ LeafAt v rest leaf := by
  constructor
  · intro h
    cases h with
    | here notObject _ => exact absurd rfl (notObject entries)
    | inside entry rest => exact ⟨_, _, _, rfl, entry, rest⟩
  · rintro ⟨k, v, rest, rfl, entry, hrest⟩
    exact LeafAt.inside entry hrest

theorem everyObject_obj {P : List String → Prop} {entries : List (String × Json α)} :
    EveryObject P (.obj entries) ↔
      P (entries.map (·.1)) ∧ ∀ e ∈ entries, EveryObject P e.2 := by
  constructor
  · intro h
    cases h with
    | leaf notObject => exact absurd rfl (notObject entries)
    | obj keys below => exact ⟨keys, below⟩
  · rintro ⟨keys, below⟩
    exact EveryObject.obj keys below

mutual

/-- **The traversal lists the leaves.** -/
theorem mem_leaves {path : List String} {leaf : Json α} :
    ∀ v : Json α, (path, leaf) ∈ v.leaves ↔ LeafAt v path leaf
  | .null | .bool _ | .int _ | .float _ | .str _ => by
      constructor
      · intro h
        cases List.mem_singleton.mp h
        exact LeafAt.here nofun nofun
      · rintro ⟨⟩
        exact List.mem_singleton_self _
  | .arr elements => by
      constructor
      · intro h
        cases h
      · rintro ⟨-, notArray⟩
        exact absurd rfl (notArray elements)
  | .obj entries => (mem_leavesOfEntries entries).trans leafAt_obj.symm

theorem mem_leavesOfEntries {path : List String} {leaf : Json α} :
    ∀ entries : List (String × Json α), (path, leaf) ∈ leavesOfEntries entries ↔
      ∃ k v rest, path = k :: rest ∧ (k, v) ∈ entries ∧ LeafAt v rest leaf
  | [] => by simp [leavesOfEntries]
  | (k, v) :: entries => by
      rw [leavesOfEntries, List.mem_append, mem_leavesOfEntries entries, List.mem_map]
      constructor
      · rintro (⟨⟨rest, leaf'⟩, hleaf, heq⟩ | ⟨k', v', rest, hpath, hentry, hrest⟩)
        · cases heq
          exact ⟨k, v, rest, rfl, List.mem_cons_self, (mem_leaves v).mp hleaf⟩
        · exact ⟨k', v', rest, hpath, List.mem_cons_of_mem _ hentry, hrest⟩
      · rintro ⟨k', v', rest, rfl, hentry, hrest⟩
        rcases List.mem_cons.mp hentry with heq | hentry
        · cases heq
          exact Or.inl ⟨(rest, leaf), (mem_leaves v).mpr hrest, rfl⟩
        · exact Or.inr ⟨k', v', rest, rfl, hentry, hrest⟩

end

/-- There is at most one leaf at a path. -/
theorem LeafAt.unique {v leaf leaf' : Json α} {path : List String} (hkeys : v.DistinctKeys)
    (h : LeafAt v path leaf) (h' : LeafAt v path leaf') : leaf = leaf' := by
  induction h with
  | here notObject _ =>
      cases h' with
      | here _ _ => rfl
  | @inside entries k v leaf path entry rest ih =>
      obtain ⟨k', v', rest', hpath, entry', hrest'⟩ := leafAt_obj.mp h'
      cases hpath
      obtain ⟨hdistinct, hbelow⟩ := everyObject_obj.mp hkeys
      have hv : v = v' := congrArg Prod.snd (List.inj_on_of_nodup_map hdistinct entry entry' rfl)
      subst hv
      exact ih (hbelow _ entry) hrest'

theorem LeafAt.undotted {v leaf : Json α} {path : List String} (hkeys : v.Undotted)
    (h : LeafAt v path leaf) : ∀ k ∈ path, '.' ∉ k.toList := by
  induction h with
  | here _ _ => simp
  | @inside entries k v leaf path entry rest ih =>
      obtain ⟨hundotted, hbelow⟩ := everyObject_obj.mp hkeys
      refine List.forall_mem_cons.mpr ⟨?_, ih (hbelow _ entry)⟩
      exact hundotted k (List.mem_map.mpr ⟨_, entry, rfl⟩)

/-! ### Objects that list a map -/

theorem leafAt_ofMap {m : KeyMap (Json α)} {path : List String} {leaf : Json α} :
    LeafAt (ofMap m) path leaf ↔
      ∃ k v rest, path = k :: rest ∧ m.get? k = some v ∧ LeafAt v rest leaf := by
  simp only [← KeyMap.mem_entries]
  exact leafAt_obj

theorem distinctKeys_ofMap {m : KeyMap (Json α)}
    (h : ∀ k v, m.get? k = some v → v.DistinctKeys) : (ofMap m).DistinctKeys := by
  exact everyObject_obj.mpr
    ⟨KeyMap.nodup_keys m, fun e he => h e.1 e.2 (KeyMap.mem_entries.mp he)⟩

theorem undotted_ofMap {m : KeyMap (Json α)}
    (h : ∀ k v, m.get? k = some v → '.' ∉ k.toList ∧ v.Undotted) : (ofMap m).Undotted := by
  refine everyObject_obj.mpr ⟨fun k hk => ?_, fun e he => (h e.1 e.2 (KeyMap.mem_entries.mp he)).2⟩
  obtain ⟨e, he, rfl⟩ := List.mem_map.mp hk
  exact (h e.1 e.2 (KeyMap.mem_entries.mp he)).1

theorem distinctKeys_object {fields : List (String × Json α)}
    (h : ∀ e ∈ fields, e.2.DistinctKeys) : (object fields).DistinctKeys :=
  distinctKeys_ofMap fun k v hv => h (k, v) (KeyMap.mem_of_get?_ofList hv)

theorem undotted_object {fields : List (String × Json α)}
    (h : ∀ e ∈ fields, '.' ∉ e.1.toList ∧ e.2.Undotted) : (object fields).Undotted :=
  undotted_ofMap fun k v hv => h (k, v) (KeyMap.mem_of_get?_ofList hv)

end Json

/-! ### Paths as texts -/

/-- **The text of a path tells its keys.** -/
theorem PivotTable.rowName_injective {path path' : List String} (hne : path ≠ [])
    (hne' : path' ≠ []) (h : ∀ k ∈ path, '.' ∉ k.toList) (h' : ∀ k ∈ path', '.' ∉ k.toList)
    (heq : rowName path = rowName path') : path = path' := by
  have hlists : path.map String.toList = path'.map String.toList := by
    rw [← splitOn_intercalate_point hne h, ← splitOn_intercalate_point hne' h']
    exact congrArg (fun name => name.toList.splitOn '.') heq
  exact List.map_injective_iff.mpr @String.toList_injective hlists

end RunCompare
