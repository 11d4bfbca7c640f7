/-
What a map built from a list of entries says about each key.

A key that no entry has is left alone, and if all keys of the entries are
different every entry is found again.  The maps of this library are all built
from entries with different keys, so these two lemmas are how they are read.

Entries that are related one by one make maps that are related entry by entry
(`forall₂_ofList`), since only their keys decide where they go.
-/
import RunCompare.KeyMap
import Mathlib.Data.List.Forall2
import Mathlib.Tactic.Common

namespace RunCompare.KeyMap

variable {β γ : Type}

theorem insertAll_cons (m : KeyMap β) (e : String × β) (entries : List (String × β)) :
    m.insertAll (e :: entries) = (m.insert e.1 e.2).insertAll entries := rfl

/-- Inserting other keys does not change what a map says about a key. -/
theorem get?_insertAll_of_not_mem {k : String} :
    ∀ {entries : List (String × β)} (m : KeyMap β), k ∉ entries.map (·.1) →
      (m.insertAll entries).get? k = m.get? k := by
  intro entries
  induction entries with
  | nil => intro m _; rfl
  | cons e rest ih =>
      intro m hk
      simp only [List.map_cons, List.mem_cons, not_or] at hk
      rw [insertAll_cons, ih _ hk.2, get?_insert, if_neg hk.1]

/-- Of entries with different keys every one is found again. -/
theorem get?_insertAll_of_mem {k : String} {v : β} :
    ∀ {entries : List (String × β)} (m : KeyMap β), (entries.map (·.1)).Nodup →
      (k, v) ∈ entries → (m.insertAll entries).get? k = some v := by
  intro entries
  induction entries with
  | nil => intro m _ hmem; simp at hmem
  | cons e rest ih =>
      intro m hdistinct hmem
      rw [List.map_cons, List.nodup_cons] at hdistinct
      rw [insertAll_cons]
      rcases List.mem_cons.mp hmem with heq | hmem
      · rw [← heq] at hdistinct ⊢
        rw [get?_insertAll_of_not_mem _ hdistinct.1, get?_insert, if_pos rfl]
      · exact ih _ hdistinct.2 hmem

theorem get?_ofList_of_mem {k : String} {v : β} {entries : List (String × β)}
    (hdistinct : (entries.map (·.1)).Nodup) (hmem : (k, v) ∈ entries) :
    (ofList entries).get? k = some v :=
  get?_insertAll_of_mem empty hdistinct hmem

theorem isSome_lookup {k : String} {entries : List (String × β)} :
    (entries.lookup k).isSome = true ↔ k ∈ entries.map (·.1) := by
  rw [Option.isSome_iff_ne_none, Ne, List.lookup_eq_none_iff, List.mem_map, not_forall]
  refine exists_congr fun e => ?_
  rw [Classical.not_imp, bne_iff_ne, not_not, eq_comm]

/-- Of several entries with one key, the last counts. -/
theorem get?_ofList (entries : List (String × β)) (k : String) :
    (ofList entries).get? k = entries.reverse.lookup k := by
  have general : ∀ (entries : List (String × β)) (m : KeyMap β),
      (m.insertAll entries).get? k = (entries.reverse.lookup k).or (m.get? k) := by
    intro entries
    induction entries with
    | nil => intro m; rfl
    | cons e rest ih =>
        intro m
        rw [insertAll_cons, ih, get?_insert, List.reverse_cons, List.lookup_append, Option.or_assoc,
          lookup_cons_eq]
        by_cases hk : k = e.1
        · simp [hk]
        · simp [hk]
  exact (general entries empty).trans (Option.or_none ..)

/-- What the map says about a key is what one of the entries says. -/
theorem mem_of_get?_ofList {k : String} {v : β} {entries : List (String × β)}
    (h : (ofList entries).get? k = some v) : (k, v) ∈ entries := by
  rw [get?_ofList] at h
  obtain ⟨before, after, hsplit, -⟩ := List.lookup_eq_some_iff.mp h
  rw [← List.mem_reverse, hsplit]
  exact List.mem_append_right _ List.mem_cons_self

/-- The keys of the map are the keys of the entries. -/
theorem contains_ofList {k : String} {entries : List (String × β)} :
    (ofList entries).contains k = true ↔ k ∈ entries.map (·.1) := by
  unfold contains
  rw [get?_ofList, isSome_lookup, List.map_reverse, List.mem_reverse]

theorem get?_ofList_of_nodup {entries : List (String × β)} (hdistinct : (entries.map (·.1)).Nodup)
    (k : String) : (ofList entries).get? k = entries.lookup k := by
  cases h : entries.lookup k with
  | none =>
      have hnot : ¬ (ofList entries).contains k = true := by
        rw [contains_ofList, ← isSome_lookup, h]
        exact nofun
      exact Option.not_isSome_iff_eq_none.mp hnot
  | some v =>
      obtain ⟨before, after, hsplit, -⟩ := List.lookup_eq_some_iff.mp h
      refine get?_ofList_of_mem hdistinct ?_
      rw [hsplit]
      exact List.mem_append_right _ List.mem_cons_self

/-- The keys of a map, in order. -/
theorem increasing_keys (m : KeyMap β) : m.keys.Pairwise (· < ·) :=
  List.pairwise_map.mpr m.increasing

theorem nodup_keys (m : KeyMap β) : m.keys.Nodup := by
  refine (increasing_keys m).imp fun {a b} hlt heq => ?_
  rw [heq] at hlt
  exact String.lt_irrefl b hlt

theorem mem_keys {m : KeyMap β} {k : String} : k ∈ m.keys ↔ m.contains k = true :=
  isSome_lookup.symm

/-- An entry is listed exactly if the map has it. -/
theorem mem_entries {m : KeyMap β} {k : String} {v : β} :
    (k, v) ∈ m.entries ↔ m.get? k = some v := by
  constructor
  · intro hmem
    obtain ⟨before, after, hsplit⟩ := List.append_of_mem hmem
    have hincreasing := m.increasing
    unfold get?
    rw [hsplit] at hincreasing ⊢
    have hbefore : ∀ e ∈ before, e.1 ≠ k := by
      intro e he heq
      have hlt := (List.pairwise_append.mp hincreasing).2.2 e he _ List.mem_cons_self
      rw [heq] at hlt
      exact String.lt_irrefl k hlt
    refine List.lookup_eq_some_iff.mpr ⟨before, after, rfl, fun e he => ?_⟩
    simpa using Ne.symm (hbefore e he)
  · intro h
    obtain ⟨before, after, hsplit, -⟩ := List.lookup_eq_some_iff.mp h
    rw [hsplit]
    exact List.mem_append_right _ List.mem_cons_self

theorem lookup_map (f : β → γ) (k : String) (entries : List (String × β)) :
    (entries.map fun e => (e.1, f e.2)).lookup k = (entries.lookup k).map f := by
  induction entries with
  | nil => rfl
  | cons e rest ih =>
      rw [List.map_cons, lookup_cons_eq, lookup_cons_eq, ih]
      split <;> rfl

theorem get?_map (f : β → γ) (m : KeyMap β) (k : String) :
    (m.map f).get? k = (m.get? k).map f :=
  lookup_map f k m.entries

/-- Entries left out by their keys are those that the map does not have. -/
theorem lookup_filter_key (p : String → Bool) (k : String) (entries : List (String × β)) :
    (entries.filter fun e => p e.1).lookup k = if p k then entries.lookup k else none := by
  induction entries with
  | nil => exact (ite_self _).symm
  | cons e rest ih =>
      rw [lookup_cons_eq, List.filter_cons]
      by_cases hk : k = e.1
      · subst hk
        cases hp : p e.1 with
        | true =>
            rw [if_pos rfl, if_pos rfl, if_pos rfl]
            exact (lookup_cons_eq e.1 e.2 _ e.1).trans (if_pos rfl)
        | false =>
            rw [hp] at ih
            exact ih
      · rw [if_neg hk]
        cases p e.1 with
        | true => rw [if_pos rfl, lookup_cons_eq, if_neg hk, ih]
        | false => exact ih

@[simp] theorem keys_map (f : β → γ) (m : KeyMap β) : (m.map f).keys = m.keys := by
  unfold keys map
  rw [List.map_map]
  rfl

/-- A key is listed exactly if the map has a value under it. -/
theorem mem_keys_iff {m : KeyMap β} {k : String} : k ∈ m.keys ↔ ∃ v, m.get? k = some v := by
  rw [mem_keys, contains, Option.isSome_iff_exists]

/-- The entries of a map make this map. -/
theorem ofList_entries (m : KeyMap β) : ofList m.entries = m := by
  refine eq_of_get? fun k => ?_
  cases h : m.get? k with
  | none =>
      rw [← Option.not_isSome_iff_eq_none]
      intro hsome
      obtain ⟨v, hv⟩ := Option.isSome_iff_exists.mp hsome
      rw [mem_entries.mp (mem_of_get?_ofList hv)] at h
      cases h
  | some v => exact get?_ofList_of_mem (nodup_keys m) (mem_entries.mpr h)

theorem lookup_filter (p : String → β → Bool) (k : String) :
    ∀ {l : List (String × β)}, l.Pairwise (fun a b => a.1 < b.1) →
      (l.filter fun e => p e.1 e.2).lookup k = (l.lookup k).filter (p k) := by
  intro l
  induction l with
  | nil => intro _; rfl
  | cons e rest ih =>
      intro hl
      obtain ⟨hfirst, htail⟩ := List.pairwise_cons.mp hl
      have hrec := ih htail
      obtain ⟨a, x⟩ := e
      rw [lookup_cons_eq, List.filter_cons]
      by_cases hk : k = a
      · subst hk
        -- No later entry has the key, whether or not this one passes the test.
        have hrest : rest.lookup k = none := lookup_eq_none_of_below hfirst
        rw [hrest, Option.filter_none] at hrec
        cases hp : p k x with
        | true => simp [Option.filter, hp]
        | false => simp [Option.filter, hp, hrec]
      · rw [if_neg hk]
        cases hp : p a x with
        | true => rw [if_pos rfl, lookup_cons_eq, if_neg hk, hrec]
        | false => exact hrec

/-- A filtered map says the same as before, as far as the test lets through. -/
theorem get?_filter (p : String → β → Bool) (m : KeyMap β) (k : String) :
    (m.filter p).get? k = (m.get? k).filter (p k) :=
  lookup_filter p k m.increasing

section

variable {R : String × β → String × γ → Prop}

theorem forall₂_insertEntry (hkey : ∀ e e', R e e' → e.1 = e'.1) {e : String × β}
    {e' : String × γ} (he : R e e') {l : List (String × β)} {l' : List (String × γ)}
    (h : List.Forall₂ R l l') :
    List.Forall₂ R (insertEntry e.1 e.2 l) (insertEntry e'.1 e'.2 l') := by
  induction h with
  | nil => exact .cons he .nil
  | @cons d d' l l' hd hrest ih =>
      obtain ⟨k, v⟩ := e
      obtain ⟨_, v'⟩ := e'
      obtain ⟨b, w⟩ := d
      obtain ⟨_, w'⟩ := d'
      cases hkey _ _ he
      cases hkey _ _ hd
      rw [insertEntry, insertEntry]
      split
      · exact .cons he (.cons hd hrest)
      · split
        · exact .cons he hrest
        · exact .cons hd ih

/-- Maps of entries that are related one by one are related entry by entry. -/
theorem forall₂_ofList (hkey : ∀ e e', R e e' → e.1 = e'.1) {l : List (String × β)}
    {l' : List (String × γ)} (h : List.Forall₂ R l l') :
    List.Forall₂ R (ofList l).entries (ofList l').entries := by
  have general : ∀ (m : KeyMap β) (m' : KeyMap γ), List.Forall₂ R m.entries m'.entries →
      List.Forall₂ R (m.insertAll l).entries (m'.insertAll l').entries := by
    induction h with
    | nil => exact fun _ _ hm => hm
    | cons he _ ih => exact fun m m' hm => ih _ _ (forall₂_insertEntry hkey he hm)
  exact general empty empty .nil

end

end RunCompare.KeyMap
