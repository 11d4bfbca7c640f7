/-
Serializing a value, which can fail.

A serializer is handed a value part by part, and a map among the parts may have
keys of any kind.  A JSON object has texts for keys.  Whole numbers and truth
values are written as texts, and a map with any other key is refused; that is
the only refusal.  Functions that build a JSON value directly cannot express
such a key; `Writes` says that a value that is handed on part by part is
accepted and becomes the JSON value that was built directly.
-/
import RunCompare.Proofs.KeyMap
import RunCompare.Json.Basic
import Mathlib.Data.List.Forall2

namespace RunCompare

variable {α β : Type}

/-- Why a value is refused. -/
structure SerializationError where
  reason : String

/-- A value as it is handed to a serializer. -/
inductive Serial (α : Type) where
  /-- A value that is a JSON value as it is. -/
  | json (v : Json α)
  | seq (elements : List (Serial α))
  | map (entries : List (Serial α × Serial α))

namespace Serial

/-- The key of an object that a serializer makes of the key of a map. -/
def key? : Serial α → Except SerializationError String
  | json (.str s) => .ok s
  | json (.int i) => .ok (toString i)
  | json (.bool b) => .ok (toString b)
  | _ => .error ⟨"key must be a string"⟩

mutual

/-- The JSON value that a serializer makes. -/
def toJson? : Serial α → Except SerializationError (Json α)
  | json v => .ok v
  | seq elements => do return .arr (← elementsToJson? elements)
  | map entries => do return Json.object (← entriesToJson? entries)

/-- The elements of an array that a serializer makes. -/
def elementsToJson? : List (Serial α) → Except SerializationError (List (Json α))
  | [] => .ok []
  | v :: rest => do
    let value ← v.toJson?
    return value :: (← elementsToJson? rest)

/-- The entries of an object that a serializer makes. -/
def entriesToJson? : List (Serial α × Serial α) → Except SerializationError (List (String × Json α))
  | [] => .ok []
  | (k, v) :: rest => do
    let key ← k.key?
    let value ← v.toJson?
    return (key, value) :: (← entriesToJson? rest)

end

/-! ### What is handed on -/

/-- A value that may be absent. -/
def option (f : β → Serial α) : Option β → Serial α
  | none => json .null
  | some v => f v

/-- A record: its fields under their names. -/
def record (fields : List (String × Serial α)) : Serial α :=
  map (fields.map fun f => (json (.str f.1), f.2))

/-- Fields whose values are JSON values as they are. -/
def plain (fields : List (String × Json α)) : List (String × Serial α) :=
  fields.map fun f => (f.1, json f.2)

/-- A map from texts. -/
def ofMap (f : β → Serial α) (m : KeyMap β) : Serial α :=
  map (m.entries.map fun e => (json (.str e.1), f e.2))

/-! ### What is made of it -/

/-- The serializer accepts a value and makes a given JSON value of it. -/
def Writes (s : Serial α) (v : Json α) : Prop := s.toJson? = .ok v

/-- The serializer accepts fields and makes given fields of them. -/
def FieldsWrite : List (String × Serial α) → List (String × Json α) → Prop :=
  List.Forall₂ fun f f' => f.1 = f'.1 ∧ f.2.Writes f'.2

variable {fields fields₁ fields₂ : List (String × Serial α)}
  {written written₁ written₂ : List (String × Json α)}

@[simp] theorem writes_json (v : Json α) : (json v).Writes v := rfl

@[simp] theorem fieldsWrite_nil : FieldsWrite ([] : List (String × Serial α)) [] := .nil

@[simp] theorem fieldsWrite_cons {k k' : String} {v : Serial α} {w : Json α} :
    FieldsWrite ((k, v) :: fields) ((k', w) :: written) ↔
      (k = k' ∧ v.Writes w) ∧ FieldsWrite fields written := List.forall₂_cons

theorem FieldsWrite.append (h₁ : FieldsWrite fields₁ written₁) (h₂ : FieldsWrite fields₂ written₂) :
    FieldsWrite (fields₁ ++ fields₂) (written₁ ++ written₂) := List.rel_append h₁ h₂

@[simp] theorem fieldsWrite_plain (fields : List (String × Json α)) : FieldsWrite (plain fields) fields :=
  List.forall₂_map_left_iff.mpr (List.forall₂_same.mpr fun _ _ => ⟨rfl, rfl⟩)

/-- **A record is accepted if its fields are: their names are texts.** -/
theorem writes_record (h : FieldsWrite fields written) :
    (record fields).Writes (Json.object written) := by
  have hentries : entriesToJson? (fields.map fun f => (json (.str f.1), f.2)) = .ok written := by
    induction h with
    | nil => rfl
    | @cons f f' fields written hf _ ih =>
        rw [List.map_cons, entriesToJson?, key?, show f.2.toJson? = .ok f'.2 from hf.2, ih, hf.1]
        rfl
  unfold Writes record toJson?
  rw [hentries]
  rfl

/-- A map with a key that cannot be a text is refused. -/
example : (map [(json .null, json (.int 1))] : Serial α).toJson? =
    .error ⟨"key must be a string"⟩ := rfl

theorem writes_seq {xs : List β} {f : β → Serial α} {g : β → Json α}
    (h : ∀ x, (f x).Writes (g x)) : (seq (xs.map f)).Writes (.arr (xs.map g)) := by
  have helements : elementsToJson? (xs.map f) = .ok (xs.map g) := by
    induction xs with
    | nil => rfl
    | cons x rest ih =>
        rw [List.map_cons, elementsToJson?, show (f x).toJson? = .ok (g x) from h x, ih]
        rfl
  unfold Writes toJson?
  rw [helements]
  rfl

theorem writes_option {f : β → Serial α} {g : β → Json α} (h : ∀ x, (f x).Writes (g x))
    (x : Option β) : (option f x).Writes (Json.ofOption g x) := by
  cases x with
  | none => rfl
  | some x => exact h x

/-- A map from texts is accepted if its values are. -/
theorem writes_ofMap {f : β → Serial α} {g : β → Json α} (h : ∀ x, (f x).Writes (g x))
    (m : KeyMap β) : (ofMap f m).Writes (Json.ofMap (m.map g)) := by
  have hfields : FieldsWrite (m.entries.map fun e => (e.1, f e.2)) (m.map g).entries :=
    List.forall₂_map_left_iff.mpr
      (List.forall₂_map_right_iff.mpr (List.forall₂_same.mpr fun e _ => ⟨rfl, h e.2⟩))
  have hrecord := writes_record hfields
  rw [record, List.map_map, Json.object, KeyMap.ofList_entries] at hrecord
  exact hrecord

end Serial

end RunCompare
