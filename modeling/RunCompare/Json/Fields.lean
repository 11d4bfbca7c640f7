/-
Reading the fields of an object.

An object is read against a list of known keys.  A known key that occurs twice
is refused; each known field is then looked up and read by its type, where a
field that may be absent may also be null; and all other entries are kept
beside them, in canonical form.
-/
import RunCompare.Json.Basic

namespace RunCompare.Json

variable {α : Type}

/-- Whether one of the known keys occurs more than once. -/
def repeatsKnown (known : List String) (entries : List (String × Json α)) : Bool :=
  known.any fun k => 1 < entries.countP (·.1 == k)

/-- The entries of an object in which no known key is repeated. -/
def entries? (known : List String) : Json α → Option (List (String × Json α))
  | .obj entries => if repeatsKnown known entries then none else some entries
  | _ => none

/-- A field that has to be there. -/
def requiredField {β : Type} (read : Json α → Option β) (key : String)
    (entries : List (String × Json α)) : Option β :=
  entries.lookup key >>= read

/-- A field that may be absent or null. -/
def optionalField {β : Type} (read : Json α → Option β) (key : String)
    (entries : List (String × Json α)) : Option (Option β) :=
  match entries.lookup key with
  | none => some none
  | some .null => some none
  | some v => (read v).map some

/-- The entries with other than the known keys. -/
def otherFields (known : List String) (entries : List (String × Json α)) : KeyMap (Json α) :=
  (KeyMap.ofList (entries.filter fun e => !known.contains e.1)).map canonical

/-- A text. -/
def text? : Json α → Option String
  | .str s => some s
  | _ => none

/-- An unsigned integer of 64 bits. -/
def count? : Json α → Option UInt64
  | .int i => if 0 ≤ i ∧ i < UInt64.size then some (UInt64.ofNat i.toNat) else none
  | _ => none

/-- A finite number. -/
def finite [Scalar α] (v : Json α) : Option α := v.number?.filter Scalar.isFinite

/-- The value of an unsigned integer. -/
def ofCount (n : UInt64) : Json α := .nat n.toNat

/-- An object with the given fields, and with other fields beside them. -/
def withOthers (fields : List (String × Json α)) (others : KeyMap (Json α)) : Json α :=
  object (fields ++ others.entries)

end RunCompare.Json
