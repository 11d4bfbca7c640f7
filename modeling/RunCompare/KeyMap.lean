/-
Finite maps from texts, listed in the order of their keys.

A `KeyMap` is a list of entries whose keys strictly increase by code point.
The list is determined by what the map says about each key, so two maps that
agree on every key are equal, and listing a map needs no sorting.
-/

namespace RunCompare

/-- A finite map from texts, its entries in strictly increasing order of their keys. -/
structure KeyMap (β : Type) where
  entries : List (String × β)
  increasing : entries.Pairwise (fun a b => a.1 < b.1) := by simp

namespace KeyMap

variable {β γ : Type}

/-- The map without entries. -/
def empty : KeyMap β := ⟨[], List.Pairwise.nil⟩

instance : Inhabited (KeyMap β) := ⟨empty⟩

/-- Puts an entry at its place in an increasing list, in place of one with the same key. -/
def insertEntry (k : String) (v : β) : List (String × β) → List (String × β)
  | [] => [(k, v)]
  | (k', v') :: rest =>
    if k < k' then (k, v) :: (k', v') :: rest
    else if k = k' then (k, v) :: rest
    else (k', v') :: insertEntry k v rest

theorem key_of_mem_insertEntry {k : String} {v : β} {e : String × β} {l : List (String × β)}
    (h : e ∈ insertEntry k v l) : e.1 = k ∨ e ∈ l := by
  fun_induction insertEntry k v l with
  | case1 => simp_all
  | case2 k' v' rest hlt => simp_all; grind
  | case3 => simp_all; grind
  | case4 k' v' rest hlt hne ih => simp_all; grind

theorem increasing_insertEntry (k : String) (v : β) {l : List (String × β)}
    (h : l.Pairwise (fun a b => a.1 < b.1)) :
    (insertEntry k v l).Pairwise (fun a b => a.1 < b.1) := by
  fun_induction insertEntry k v l with
  | case1 => simp
  | case2 k' v' rest hlt =>
    refine List.pairwise_cons.2 ⟨fun e he => ?_, h⟩
    rcases List.mem_cons.1 he with rfl | he
    · exact hlt
    · exact String.lt_trans hlt ((List.pairwise_cons.1 h).1 e he)
  | case3 => exact List.pairwise_cons.2 (List.pairwise_cons.1 h)
  | case4 k' v' rest hlt hne ih =>
    have ⟨first, tail⟩ := List.pairwise_cons.1 h
    refine List.pairwise_cons.2 ⟨fun e he => ?_, ih tail⟩
    rcases key_of_mem_insertEntry he with hk | he
    · have below : k' ≤ k := String.not_lt.1 hlt
      rw [hk]
      exact Decidable.byContradiction fun hnot =>
        hne (String.le_antisymm (String.not_lt.1 hnot) below)
    · exact first e he

/-- The map with a value put under a key. -/
def insert (m : KeyMap β) (k : String) (v : β) : KeyMap β :=
  ⟨insertEntry k v m.entries, increasing_insertEntry k v m.increasing⟩

/-- The value under a key. -/
def get? (m : KeyMap β) (k : String) : Option β := m.entries.lookup k

/-- Whether there is a value under a key. -/
def contains (m : KeyMap β) (k : String) : Bool := (m.get? k).isSome

/-- The keys in increasing order. -/
def keys (m : KeyMap β) : List String := m.entries.map (·.1)

/-- The number of keys. -/
def size (m : KeyMap β) : Nat := m.entries.length

/-- The map with all the given entries put in, one after the other. -/
def insertAll (m : KeyMap β) (entries : List (String × β)) : KeyMap β :=
  entries.foldl (fun m e => m.insert e.1 e.2) m

/-- The map of a list of entries; of several with one key, the last counts. -/
def ofList (entries : List (String × β)) : KeyMap β := empty.insertAll entries

/-- The same keys with other values. -/
def map (f : β → γ) (m : KeyMap β) : KeyMap γ where
  entries := m.entries.map fun e => (e.1, f e.2)
  increasing := by
    simpa [List.pairwise_map] using m.increasing

/-- The entries that pass a test. -/
def filter (p : String → β → Bool) (m : KeyMap β) : KeyMap β where
  entries := m.entries.filter fun e => p e.1 e.2
  increasing := m.increasing.filter _

/-! ### What a map says about a key -/

@[simp] theorem get?_empty (k : String) : (empty : KeyMap β).get? k = none := rfl

theorem lookup_cons_eq (a : String) (x : β) (l : List (String × β)) (k : String) :
    ((a, x) :: l).lookup k = if k = a then some x else l.lookup k := by
  by_cases h : k = a
  · simp [h]
  · simp [List.lookup_cons, beq_false_of_ne h, h]

theorem lookup_insertEntry (k : String) (v : β) (l : List (String × β)) (k' : String) :
    (insertEntry k v l).lookup k' = if k' = k then some v else l.lookup k' := by
  fun_induction insertEntry k v l with
  | case1 => exact lookup_cons_eq k v [] k'
  | case2 a x rest hlt => exact lookup_cons_eq k v ((a, x) :: rest) k'
  | case3 x rest hlt =>
    rw [lookup_cons_eq, lookup_cons_eq]
    split <;> rfl
  | case4 a x rest hlt hne ih =>
    rw [lookup_cons_eq, lookup_cons_eq, ih]
    by_cases ha : k' = a
    · have hk : k' ≠ k := fun h => hne (h.symm.trans ha)
      simp [ha, ha ▸ hk]
    · simp [ha]

/-- Putting a value under a key changes what the map says about this key only. -/
theorem get?_insert (m : KeyMap β) (k : String) (v : β) (k' : String) :
    (m.insert k v).get? k' = if k' = k then some v else m.get? k' :=
  lookup_insertEntry k v m.entries k'

theorem lookup_eq_none_of_below {k : String} {l : List (String × β)} (h : ∀ e ∈ l, k < e.1) :
    l.lookup k = none := by
  refine List.lookup_eq_none_iff.2 fun e he => ?_
  have hne : k ≠ e.1 := fun heq => String.lt_irrefl e.1 (heq ▸ h e he)
  simpa using hne

theorem entries_eq_of_lookup : ∀ {l l' : List (String × β)},
    l.Pairwise (fun a b => a.1 < b.1) → l'.Pairwise (fun a b => a.1 < b.1) →
      (∀ k, l.lookup k = l'.lookup k) → l = l'
  | [], [], _, _, _ => rfl
  | [], (b, y) :: _, _, _, h => by simpa [lookup_cons_eq] using h b
  | (a, x) :: _, [], _, _, h => by simpa [lookup_cons_eq] using h a
  | (a, x) :: l, (b, y) :: l', hl, hl', h => by
    have ⟨afterA, tail⟩ := List.pairwise_cons.1 hl
    have ⟨afterB, tail'⟩ := List.pairwise_cons.1 hl'
    -- A key below all keys of a list is missing from it, so neither first key is the lesser one.
    have notLess {c d : String} {w : β} {r : List (String × β)}
        (hr : ∀ e ∈ r, d < e.1) (hc : ((d, w) :: r).lookup c ≠ none) : ¬ c < d := by
      intro hlt
      refine hc (lookup_eq_none_of_below fun e he => ?_)
      rcases List.mem_cons.1 he with rfl | he
      · exact hlt
      · exact String.lt_trans hlt (hr e he)
    have foundA : ((b, y) :: l').lookup a ≠ none := by simp [← h a]
    have foundB : ((a, x) :: l).lookup b ≠ none := by simp [h b]
    have hab : a = b :=
      String.le_antisymm (String.not_lt.1 (notLess afterA foundB))
        (String.not_lt.1 (notLess afterB foundA))
    subst hab
    have hxy : x = y := by simpa [lookup_cons_eq] using h a
    subst hxy
    refine congrArg _ (entries_eq_of_lookup tail tail' fun k => ?_)
    by_cases hk : k = a
    · rw [hk, lookup_eq_none_of_below afterA, lookup_eq_none_of_below afterB]
    · simpa [lookup_cons_eq, hk] using h k

/-- Two maps that say the same about every key are equal. -/
theorem eq_of_get? {m m' : KeyMap β} (h : ∀ k, m.get? k = m'.get? k) : m = m' := by
  cases m; cases m'
  simpa using entries_eq_of_lookup ‹_› ‹_› h

end KeyMap

end RunCompare
