/-
What is read back of the fields of an object.

A record is written as an object with its known fields and the others beside
them, and no other has a known key.  So the keys of the object are distinct, and
looking one up finds the record's own field if the key is known and the other
field if it is not (`entries?_withOthers`).

`Returns` is what the type of a field has to bring along: what was read is read
again from what is written, and is not written as null, which would stand for a
field that is absent.
-/
import RunCompare.Json.Fields
import RunCompare.Proofs.Json.Canonical

namespace RunCompare.Json

variable {α β : Type}

/-! ### Single fields -/

/-- What was read is read again from what is written, and is not written as null. -/
structure Returns (read : Json α → Option β) (write : β → Json α) : Prop where
  again : ∀ {v x}, read v = some x → read (write x) = some x
  notNull : ∀ {v x}, read v = some x → write x ≠ .null

theorem returns_text : Returns (α := α) text? .str where
  again _ := rfl
  notNull _ := nofun

theorem returns_count : Returns (α := α) count? ofCount where
  again {_ n} _ := by
    have hrange : (0 : Int) ≤ (n.toNat : Int) ∧ (n.toNat : Int) < UInt64.size :=
      ⟨Int.natCast_nonneg _, Int.ofNat_lt.mpr n.toNat_lt⟩
    rw [ofCount, nat, count?, if_pos hrange]
    simp
  notNull _ := nofun

/-- A number that was read is finite, so it is not written as null. -/
theorem returns_finite [Scalar α] : Returns (α := α) finite ofScalar := by
  have hwritten : ∀ {v : Json α} {x : α}, finite v = some x →
      Scalar.isFinite x = true ∧ ofScalar x = .float x := by
    intro v x h
    have hx : Scalar.isFinite x = true := (Option.filter_eq_some_iff.mp h).2
    exact ⟨hx, if_pos hx⟩
  refine ⟨fun h => ?_, fun h => ?_⟩
  · rw [(hwritten h).2]
    exact Option.filter_eq_some_iff.mpr ⟨rfl, (hwritten h).1⟩
  · rw [(hwritten h).2]
    exact nofun

namespace Returns

variable {read : Json α → Option β} {write : β → Json α} {key : String}
  {entries entries' : List (String × Json α)} {x : β} {part : Option β}

theorem required (h : Returns read write) (hread : requiredField read key entries = some x)
    (hwritten : entries'.lookup key = some (write x)) :
    requiredField read key entries' = some x := by
  obtain ⟨v, -, hv⟩ := Option.bind_eq_some_iff.mp hread
  rw [requiredField, hwritten]
  exact h.again hv

/-- A part is absent exactly if the field is missing or null. -/
theorem optional_cases (hread : optionalField read key entries = some part) :
    (part = none ∧ (entries.lookup key = none ∨ entries.lookup key = some .null)) ∨
      ∃ v x, part = some x ∧ entries.lookup key = some v ∧ v ≠ .null ∧ read v = some x := by
  unfold optionalField at hread
  split at hread
  · rename_i hnone
    cases hread
    exact Or.inl ⟨rfl, Or.inl hnone⟩
  · rename_i hnull
    cases hread
    exact Or.inl ⟨rfl, Or.inr hnull⟩
  · rename_i v hnotNull hv
    obtain ⟨x, hx, rfl⟩ := Option.map_eq_some_iff.mp hread
    exact Or.inr ⟨v, x, rfl, hv, hnotNull, hx⟩

/-- A part that is there was read from the field. -/
theorem of_optional (hread : optionalField read key entries = some (some x)) :
    ∃ v, entries.lookup key = some v ∧ read v = some x := by
  rcases optional_cases hread with ⟨heq, -⟩ | ⟨v, x', heq, hv, -, hx⟩
  · cases heq
  · cases heq
    exact ⟨v, hv, hx⟩

theorem optional (h : Returns read write) (hread : optionalField read key entries = some part)
    (hwritten : entries'.lookup key = some (ofOption write part)) :
    optionalField read key entries' = some part := by
  rcases optional_cases hread with ⟨rfl, -⟩ | ⟨v, x, rfl, -, -, hv⟩
  · rw [optionalField, hwritten]
    rfl
  · have hnull : ofOption write (some x) ≠ .null := h.notNull hv
    unfold optionalField
    rw [hwritten]
    split
    · rename_i heq
      cases heq
    · rename_i heq
      exact absurd (Option.some.inj heq) hnull
    · rename_i v' _ heq
      rw [← Option.some.inj heq]
      exact congrArg (Option.map some) (h.again hv)

/-- A part is absent exactly if its field was missing or null, and is then written as null. -/
theorem absent_iff (h : Returns read write) (hread : optionalField read key entries = some part)
    (hwritten : entries'.lookup key = some (ofOption write part)) :
    (part.isNone = true ↔ entries.lookup key = none ∨ entries.lookup key = some .null) ∧
      (part.isNone = true ↔ entries'.lookup key = some .null) := by
  rw [hwritten]
  rcases optional_cases hread with ⟨rfl, habsent⟩ | ⟨v, x, rfl, hv, hnotNull, hx⟩
  · exact ⟨iff_of_true rfl habsent, iff_of_true rfl rfl⟩
  · refine ⟨iff_of_false nofun ?_, iff_of_false nofun ?_⟩
    · rw [hv]
      rintro (hnone | hnull)
      · cases hnone
      · exact hnotNull (Option.some.inj hnull)
    · exact fun hnull => h.notNull hx (Option.some.inj hnull)

end Returns

/-! ### Whole objects -/

theorem entries?_eq_some {known : List String} {v : Json α} {entries : List (String × Json α)} :
    v.entries? known = some entries ↔ v = .obj entries ∧ repeatsKnown known entries = false := by
  cases v with
  | obj written =>
      rw [entries?]
      by_cases hrepeats : repeatsKnown known written = true
      · rw [if_pos hrepeats]
        refine iff_of_false nofun ?_
        rintro ⟨heq, hnot⟩
        cases heq
        rw [hrepeats] at hnot
        cases hnot
      · rw [if_neg hrepeats]
        constructor
        · intro heq
          cases heq
          exact ⟨rfl, Bool.eq_false_iff.mpr hrepeats⟩
        · rintro ⟨heq, -⟩
          cases heq
          rfl
  | null | bool _ | int _ | float _ | str _ | arr _ => exact iff_of_false nofun (fun h => nomatch h.1)

theorem field?_canonical (entries : List (String × Json α)) (k : String) :
    (Json.obj entries).canonical.field? k = ((KeyMap.ofList entries).get? k).map canonical := by
  show (KeyMap.ofList (canonicalEntries entries)).get? k = _
  rw [canonicalEntries_eq_map, KeyMap.get?_ofList, KeyMap.get?_ofList, ← List.map_reverse]
  exact KeyMap.lookup_map canonical k entries.reverse

/-- An unknown key has the value that it has in the object, and a known key has none. -/
theorem get?_otherFields (known : List String) (entries : List (String × Json α)) (k : String) :
    (otherFields known entries).get? k =
      if k ∈ known then none else (Json.obj entries).canonical.field? k := by
  rw [otherFields, KeyMap.get?_map, KeyMap.get?_ofList, ← List.filter_reverse,
    KeyMap.lookup_filter_key fun key => !known.contains key, field?_canonical, KeyMap.get?_ofList]
  by_cases hk : k ∈ known
  · simp [hk]
  · simp [hk]

theorem map_canonical_otherFields (known : List String) (entries : List (String × Json α)) :
    (otherFields known entries).map canonical = otherFields known entries := by
  refine KeyMap.eq_of_get? fun k => ?_
  rw [otherFields, KeyMap.get?_map, KeyMap.get?_map, Option.map_map]
  exact congrArg (Option.map · _) (funext canonical_canonical)

theorem repeatsKnown_entries (known : List String) (m : KeyMap (Json α)) :
    repeatsKnown known m.entries = false := by
  refine List.any_eq_false.mpr fun k _ => ?_
  have hcount : m.entries.countP (·.1 == k) = m.keys.count k := by
    rw [List.count, KeyMap.keys, List.countP_map]
    rfl
  have hle : m.keys.count k ≤ 1 := List.nodup_iff_count_le_one.mp (KeyMap.nodup_keys m) k
  rw [hcount, decide_eq_true_iff]
  exact Nat.not_lt.mpr hle

/-- **A written object is read as its known fields with the others beside them.** -/
theorem entries?_withOthers {known : List String} {fields : List (String × Json α)}
    {others : KeyMap (Json α)} (hkeys : fields.map (·.1) = known) (hdistinct : known.Nodup)
    (hothers : ∀ k ∈ known, others.get? k = none) :
    ∃ entries, withOthers fields others = .obj entries ∧
      (withOthers fields others).entries? known = some entries ∧
      (∀ k, entries.lookup k = if k ∈ known then fields.lookup k else others.get? k) ∧
      otherFields known entries = others.map canonical := by
  set m := KeyMap.ofList (fields ++ others.entries) with hm
  have hlookup : ∀ k, m.get? k = if k ∈ known then fields.lookup k else others.get? k := by
    intro k
    rw [hm, KeyMap.get?_ofList, List.reverse_append, List.lookup_append, ← KeyMap.get?_ofList,
      ← KeyMap.get?_ofList, KeyMap.ofList_entries,
      KeyMap.get?_ofList_of_nodup (hkeys ▸ hdistinct)]
    by_cases hk : k ∈ known
    · rw [if_pos hk, hothers k hk, Option.none_or]
    · have hnone : fields.lookup k = none := by
        rw [← Option.not_isSome_iff_eq_none, KeyMap.isSome_lookup, hkeys]
        exact hk
      rw [if_neg hk, hnone, Option.or_none]
  refine ⟨m.entries, rfl, entries?_eq_some.mpr ⟨rfl, repeatsKnown_entries known m⟩, hlookup, ?_⟩
  refine KeyMap.eq_of_get? fun k => ?_
  rw [get?_otherFields, field?_canonical, KeyMap.ofList_entries, KeyMap.get?_map, hlookup]
  by_cases hk : k ∈ known
  · rw [if_pos hk, hothers k hk]
    rfl
  · rw [if_neg hk, if_neg hk]

end RunCompare.Json
