/-
The canonical form of a JSON value.

It lists the keys of every object once and in increasing order, inside arrays
too, so taking it again changes nothing (`canonical_canonical`).  No object of
it has a key twice, and it has no keys of its own (`canonical_distinctKeys`,
`Undotted.canonical`), which is what a pivot table asks of its columns.
-/
import RunCompare.Proofs.Json.Leaves

namespace RunCompare.Json

variable {α : Type}

theorem canonicalElements_eq_map (elements : List (Json α)) :
    canonicalElements elements = elements.map canonical := by
  induction elements with
  | nil => rfl
  | cons v rest ih => rw [canonicalElements, ih, List.map_cons]

theorem canonicalEntries_eq_map (entries : List (String × Json α)) :
    canonicalEntries entries = entries.map fun e => (e.1, e.2.canonical) := by
  induction entries with
  | nil => rfl
  | cons e rest ih => rw [canonicalEntries, ih, List.map_cons]

/-- An entry of a canonical object is an entry of the object, in canonical form. -/
theorem mem_canonicalEntries {entries : List (String × Json α)} {e : String × Json α}
    (he : e ∈ canonicalEntries entries) : ∃ e' ∈ entries, e = (e'.1, e'.2.canonical) := by
  rw [canonicalEntries_eq_map] at he
  obtain ⟨e', he', heq⟩ := List.mem_map.mp he
  exact ⟨e', he', heq.symm⟩

mutual

/-- **The canonical form is in canonical form.** -/
theorem canonical_canonical : ∀ v : Json α, v.canonical.canonical = v.canonical
  | .null | .bool _ | .int _ | .float _ | .str _ => rfl
  | .arr elements => by
      rw [canonical, canonical, canonicalElements_eq_map, canonicalElements_eq_map, List.map_map]
      exact congrArg arr (List.map_congr_left (canonical_elements elements))
  | .obj entries => by
      have hkept : canonicalEntries (KeyMap.ofList (canonicalEntries entries)).entries =
          (KeyMap.ofList (canonicalEntries entries)).entries := by
        rw [canonicalEntries_eq_map]
        refine (List.map_congr_left fun e he => ?_).trans (List.map_id _)
        have hmem : e ∈ canonicalEntries entries :=
          KeyMap.mem_of_get?_ofList (KeyMap.mem_entries.mp he)
        obtain ⟨e', he', rfl⟩ := mem_canonicalEntries hmem
        exact congrArg (Prod.mk e'.1) (canonical_entries entries e' he')
      show object (canonicalEntries (KeyMap.ofList (canonicalEntries entries)).entries) = _
      rw [hkept, object, KeyMap.ofList_entries]
      rfl

theorem canonical_elements :
    ∀ (elements : List (Json α)), ∀ v ∈ elements, v.canonical.canonical = v.canonical
  | [] => by simp
  | v :: rest => List.forall_mem_cons.mpr ⟨canonical_canonical v, canonical_elements rest⟩

theorem canonical_entries :
    ∀ (entries : List (String × Json α)), ∀ e ∈ entries, e.2.canonical.canonical = e.2.canonical
  | [] => by simp
  | (_, v) :: rest => List.forall_mem_cons.mpr ⟨canonical_canonical v, canonical_entries rest⟩

end

/-! ### Its keys -/

mutual

/-- **No object of a canonical form lists a key twice.** -/
theorem canonical_distinctKeys : ∀ v : Json α, v.canonical.DistinctKeys
  | .null | .bool _ | .int _ | .float _ | .str _ | .arr _ => EveryObject.leaf nofun
  | .obj entries => distinctKeys_object (distinctKeys_canonicalEntries entries)

theorem distinctKeys_canonicalEntries :
    ∀ entries : List (String × Json α), ∀ e ∈ canonicalEntries entries, e.2.DistinctKeys
  | [] => by simp [canonicalEntries]
  | (_, v) :: rest =>
      List.forall_mem_cons.mpr ⟨canonical_distinctKeys v, distinctKeys_canonicalEntries rest⟩

end

theorem Undotted.canonical {v : Json α} (h : v.Undotted) : v.canonical.Undotted := by
  induction h with
  | @leaf v notObject =>
      cases v with
      | obj entries => exact absurd rfl (notObject entries)
      | null | bool _ | int _ | float _ | str _ | arr _ => exact EveryObject.leaf nofun
  | @obj entries keys below ih =>
      refine undotted_object fun e he => ?_
      obtain ⟨e', he', rfl⟩ := mem_canonicalEntries he
      exact ⟨keys e'.1 (List.mem_map.mpr ⟨e', he', rfl⟩), ih e' he'⟩

end RunCompare.Json
