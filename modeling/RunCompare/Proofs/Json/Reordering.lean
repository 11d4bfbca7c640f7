/-
Objects whose entries are listed in another order.

A reader of an object looks only at the values that the entries have under each
key (`valuesUnder`): it refuses a known key with two of them, takes the first
one of a known key, and keeps the last one of any other.  If the keys of an
object are distinct, listing its entries in another order moves none of these
values (`valuesUnder_perm`).

`Reordered` allows this at every depth, inside arrays too.  Nothing that is read
by looking keys up can tell the difference: the fields are read as before
(`Respects.required`, `Respects.optional`), and the canonical form is the same
(`Reordered.canonical_eq`).
-/
import RunCompare.Proofs.Json.Fields

namespace RunCompare.Json

variable {α β : Type}

/-! ### The values under a key -/

/-- The values that entries have under a key, in their order. -/
def valuesUnder (k : String) (entries : List (String × Json α)) : List (Json α) :=
  (entries.filter (·.1 == k)).map (·.2)

theorem valuesUnder_append (k : String) (before after : List (String × Json α)) :
    valuesUnder k (before ++ after) = valuesUnder k before ++ valuesUnder k after := by
  simp [valuesUnder]

theorem valuesUnder_cons (k : String) (e : String × Json α) (entries : List (String × Json α)) :
    valuesUnder k (e :: entries) =
      if e.1 = k then e.2 :: valuesUnder k entries else valuesUnder k entries := by
  by_cases h : e.1 = k
  · simp [valuesUnder, h]
  · simp [valuesUnder, h]

/-- An entry is not among the values under another key. -/
theorem valuesUnder_insert_of_ne {k k' : String} (h : k' ≠ k) (v : Json α)
    (before after : List (String × Json α)) :
    valuesUnder k (before ++ (k', v) :: after) = valuesUnder k (before ++ after) := by
  rw [valuesUnder_append, valuesUnder_cons, if_neg h, ← valuesUnder_append]

theorem lookup_eq_head? (k : String) (entries : List (String × Json α)) :
    entries.lookup k = (valuesUnder k entries).head? := by
  induction entries with
  | nil => rfl
  | cons e rest ih =>
      rw [KeyMap.lookup_cons_eq, valuesUnder_cons, ih]
      by_cases h : k = e.1
      · rw [if_pos h, if_pos h.symm, List.head?_cons]
      · rw [if_neg h, if_neg (Ne.symm h)]

/-- The map of entries has the last of the values under a key. -/
theorem get?_ofList_eq_getLast? (k : String) (entries : List (String × Json α)) :
    (KeyMap.ofList entries).get? k = (valuesUnder k entries).getLast? := by
  rw [KeyMap.get?_ofList, lookup_eq_head?, List.getLast?_eq_head?_reverse]
  simp [valuesUnder]

theorem repeatsKnown_eq_false_iff {known : List String} {entries : List (String × Json α)} :
    repeatsKnown known entries = false ↔ ∀ k ∈ known, (valuesUnder k entries).length ≤ 1 := by
  simp [repeatsKnown, valuesUnder, List.countP_eq_length_filter]

/-- Distinct keys have one value each at most. -/
theorem length_valuesUnder_le {entries : List (String × Json α)}
    (distinct : (entries.map (·.1)).Nodup) (k : String) : (valuesUnder k entries).length ≤ 1 := by
  have hcount : (valuesUnder k entries).length = (entries.map (·.1)).count k := by
    rw [List.count, List.countP_map, List.countP_eq_length_filter, valuesUnder, List.length_map]
    rfl
  rw [hcount]
  exact List.nodup_iff_count_le_one.mp distinct k

/-- **Listing entries with distinct keys in another order moves no value.** -/
theorem valuesUnder_perm {entries entries' : List (String × Json α)}
    (distinct : (entries.map (·.1)).Nodup) (perm : entries.Perm entries') (k : String) :
    valuesUnder k entries = valuesUnder k entries' := by
  have hperm : (valuesUnder k entries).Perm (valuesUnder k entries') := (perm.filter _).map _
  have hle := length_valuesUnder_le distinct k
  match hvalues : valuesUnder k entries with
  | [] =>
      rw [hvalues] at hperm
      exact hperm.nil_eq
  | [v] =>
      rw [hvalues] at hperm
      exact (List.perm_singleton.mp hperm.symm).symm
  | _ :: _ :: _ =>
      rw [hvalues] at hle
      simp at hle

/-! ### Values that differ in the order of entries -/

/-- Two values differ in the order in which objects with distinct keys list their entries. -/
inductive Reordered : Json α → Json α → Prop
  | refl (v : Json α) : Reordered v v
  | trans {u v w : Json α} (first : Reordered u v) (second : Reordered v w) : Reordered u w
  | listed {entries entries' : List (String × Json α)} (distinct : (entries.map (·.1)).Nodup)
      (perm : entries.Perm entries') : Reordered (.obj entries) (.obj entries')
  | field {before after : List (String × Json α)} {k : String} {v v' : Json α}
      (inside : Reordered v v') :
      Reordered (.obj (before ++ (k, v) :: after)) (.obj (before ++ (k, v') :: after))
  | element {before after : List (Json α)} {v v' : Json α} (inside : Reordered v v') :
      Reordered (.arr (before ++ v :: after)) (.arr (before ++ v' :: after))

theorem Reordered.symm {v v' : Json α} (h : Reordered v v') : Reordered v' v := by
  induction h with
  | refl v => exact Reordered.refl v
  | trans _ _ ih ih' => exact ih'.trans ih
  | listed distinct perm => exact Reordered.listed ((perm.map _).nodup_iff.mp distinct) perm.symm
  | field _ ih => exact Reordered.field ih
  | element _ ih => exact Reordered.element ih

theorem Reordered.canonical_eq {v v' : Json α} (h : Reordered v v') :
    v.canonical = v'.canonical := by
  induction h with
  | refl v => rfl
  | trans _ _ ih ih' => exact ih.trans ih'
  | @listed entries entries' distinct perm =>
      have hmaps : KeyMap.ofList (canonicalEntries entries) =
          KeyMap.ofList (canonicalEntries entries') := by
        refine KeyMap.eq_of_get? fun k => ?_
        rw [get?_ofList_eq_getLast?, get?_ofList_eq_getLast?, canonicalEntries_eq_map,
          canonicalEntries_eq_map]
        refine congrArg List.getLast? (valuesUnder_perm ?_ (perm.map _) k)
        rw [List.map_map]
        exact distinct
      exact congrArg ofMap hmaps
  | @field before after k v v' _ ih =>
      have hentries : canonicalEntries (before ++ (k, v) :: after) =
          canonicalEntries (before ++ (k, v') :: after) := by
        simp [canonicalEntries_eq_map, ih]
      exact congrArg object hentries
  | @element before after v v' _ ih =>
      have helements : canonicalElements (before ++ v :: after) =
          canonicalElements (before ++ v' :: after) := by
        simp [canonicalElements_eq_map, ih]
      exact congrArg arr helements

theorem Reordered.null_iff {v v' : Json α} (h : Reordered v v') : v = .null ↔ v' = .null := by
  induction h with
  | refl v => rfl
  | trans _ _ ih ih' => exact ih.trans ih'
  | listed _ _ | field _ _ | element _ _ => exact iff_of_false nofun nofun

/-- Entries with reordered values under every key. -/
def Alike (entries entries' : List (String × Json α)) : Prop :=
  ∀ k, List.Forall₂ Reordered (valuesUnder k entries) (valuesUnder k entries')

theorem forall₂_reordered_refl (vs : List (Json α)) : List.Forall₂ Reordered vs vs :=
  List.forall₂_same.mpr fun v _ => Reordered.refl v

theorem Alike.trans {u v w : List (String × Json α)} (h : Alike u v) (h' : Alike v w) :
    Alike u w := by
  have compose : ∀ {xs ys zs : List (Json α)}, List.Forall₂ Reordered xs ys →
      List.Forall₂ Reordered ys zs → List.Forall₂ Reordered xs zs := by
    intro xs ys zs hxy
    induction hxy generalizing zs with
    | nil => exact id
    | cons hx _ ih =>
        intro hyz
        obtain ⟨z, zs', hz, hzs, rfl⟩ := List.forall₂_cons_left_iff.mp hyz
        exact List.Forall₂.cons (hx.trans hz) (ih hzs)
  exact fun k => compose (h k) (h' k)

/-- **A reordered object is an object with reordered values under every key.** -/
theorem Reordered.alike {v v' : Json α} (h : Reordered v v') :
    ∀ entries, v = .obj entries → ∃ entries', v' = .obj entries' ∧ Alike entries entries' := by
  induction h with
  | refl v =>
      intro entries hv
      exact ⟨entries, hv, fun k => forall₂_reordered_refl _⟩
  | trans _ _ ih ih' =>
      intro entries hu
      obtain ⟨entries', hv, halike⟩ := ih entries hu
      obtain ⟨entries'', hw, halike'⟩ := ih' entries' hv
      exact ⟨entries'', hw, halike.trans halike'⟩
  | @listed entries entries' distinct perm =>
      intro written hv
      cases hv
      refine ⟨entries', rfl, fun k => ?_⟩
      rw [valuesUnder_perm distinct perm k]
      exact forall₂_reordered_refl _
  | @field before after k v v' inside _ =>
      intro written hv
      cases hv
      refine ⟨_, rfl, fun key => ?_⟩
      rw [valuesUnder_append, valuesUnder_append, valuesUnder_cons, valuesUnder_cons]
      refine List.rel_append (forall₂_reordered_refl _) ?_
      by_cases hkey : k = key
      · rw [if_pos hkey, if_pos hkey]
        exact List.Forall₂.cons inside (forall₂_reordered_refl _)
      · rw [if_neg hkey, if_neg hkey]
        exact forall₂_reordered_refl _
  | element _ _ =>
      intro entries hv
      cases hv

theorem Alike.repeatsKnown_eq {entries entries' : List (String × Json α)}
    (h : Alike entries entries') (known : List String) :
    repeatsKnown known entries = repeatsKnown known entries' := by
  have hsame : repeatsKnown known entries = false ↔ repeatsKnown known entries' = false := by
    rw [repeatsKnown_eq_false_iff, repeatsKnown_eq_false_iff]
    refine forall₂_congr fun k _ => ?_
    rw [(h k).length_eq]
  exact Bool.eq_iff_iff.mpr (by simpa using not_congr hsame)

/-- A key is found in both, with reordered values, or in neither. -/
theorem Alike.lookup {entries entries' : List (String × Json α)} (h : Alike entries entries')
    (k : String) : (entries.lookup k = none ∧ entries'.lookup k = none) ∨
      ∃ v v', entries.lookup k = some v ∧ entries'.lookup k = some v' ∧ Reordered v v' := by
  have hk := h k
  rw [lookup_eq_head?, lookup_eq_head?]
  generalize valuesUnder k entries = vs at hk
  generalize valuesUnder k entries' = vs' at hk
  cases hk with
  | nil => exact Or.inl ⟨rfl, rfl⟩
  | cons hv _ => exact Or.inr ⟨_, _, rfl, rfl, hv⟩

/-! ### Readers -/

/-- A reader does not look at the order of entries. -/
def Respects (read : Json α → Option β) : Prop := ∀ {v v'}, Reordered v v' → read v = read v'

/-- A reader of values that are neither objects nor arrays does not look at their entries. -/
theorem respects_of_atoms {read : Json α → Option β} (hobj : ∀ entries, read (.obj entries) = none)
    (harr : ∀ elements, read (.arr elements) = none) : Respects read := by
  intro v v' h
  induction h with
  | refl v => rfl
  | trans _ _ ih ih' => exact ih.trans ih'
  | listed _ _ | field _ _ => rw [hobj, hobj]
  | element _ _ => rw [harr, harr]

theorem respects_text : Respects (α := α) text? := respects_of_atoms (fun _ => rfl) fun _ => rfl

theorem respects_count : Respects (α := α) count? := respects_of_atoms (fun _ => rfl) fun _ => rfl

theorem respects_finite [Scalar α] : Respects (α := α) finite :=
  respects_of_atoms (fun _ => rfl) fun _ => rfl

theorem optionalField_of_ne_null {read : Json α → Option β} {k : String}
    {entries : List (String × Json α)} {v : Json α} (h : entries.lookup k = some v)
    (hv : v ≠ .null) : optionalField read k entries = (read v).map some := by
  unfold optionalField
  rw [h]
  split
  · rename_i heq
    cases heq
  · rename_i heq
    exact absurd (Option.some.inj heq) hv
  · rename_i heq
    rw [← Option.some.inj heq]

namespace Respects

variable {read : Json α → Option β} {entries entries' : List (String × Json α)}

theorem required (hread : Respects read) (h : Alike entries entries') (k : String) :
    requiredField read k entries = requiredField read k entries' := by
  unfold requiredField
  rcases h.lookup k with ⟨hnone, hnone'⟩ | ⟨v, v', hv, hv', hreordered⟩
  · rw [hnone, hnone']
  · rw [hv, hv']
    exact hread hreordered

theorem optional (hread : Respects read) (h : Alike entries entries') (k : String) :
    optionalField read k entries = optionalField read k entries' := by
  rcases h.lookup k with ⟨hnone, hnone'⟩ | ⟨v, v', hv, hv', hreordered⟩
  · unfold optionalField
    rw [hnone, hnone']
  · by_cases hnull : v = .null
    · unfold optionalField
      rw [hv, hv', hnull, hreordered.null_iff.mp hnull]
    · have hnull' : v' ≠ .null := fun heq => hnull (hreordered.null_iff.mpr heq)
      rw [optionalField_of_ne_null hv hnull, optionalField_of_ne_null hv' hnull',
        hread hreordered]

end Respects

end RunCompare.Json
