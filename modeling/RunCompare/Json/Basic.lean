/-
JSON values.

A `Json α` is a tree whose fractional numbers are of type `α`.  An object is
the list of its entries as written, so that a reader can still see a key that
occurs twice; `canonical` gives the value that such a tree stands for, in which
every object lists distinct keys in increasing order and the last entry of a
key has won.
-/
import RunCompare.Scalar
import RunCompare.KeyMap

namespace RunCompare

/-- A JSON value with fractional numbers in `α`; an object keeps its entries as written. -/
inductive Json (α : Type) where
  | null
  | bool (b : Bool)
  | int (i : Int)
  | float (x : α)
  | str (s : String)
  | arr (elements : List (Json α))
  | obj (entries : List (String × Json α))
deriving Inhabited, Repr

namespace Json

variable {α : Type}

/-! ### Building -/

/-- An object with the given entries in increasing order of their keys; of several entries with
one key, the last counts. -/
def object (entries : List (String × Json α)) : Json α := .obj (KeyMap.ofList entries).entries

/-- The object that lists a map. -/
def ofMap (m : KeyMap (Json α)) : Json α := .obj m.entries

/-- A number, or null if it is not finite. -/
def ofScalar [Scalar α] (x : α) : Json α := if Scalar.isFinite x then .float x else .null

/-- A value that may be absent, absence being null. -/
def ofOption {β : Type} (f : β → Json α) : Option β → Json α
  | none => .null
  | some v => f v

/-- A natural number. -/
def nat (n : Nat) : Json α := .int n

/-! ### Inspecting -/

/-- The number nearest to an integer. -/
def scalarOfInt [Scalar α] (i : Int) : α :=
  if i < 0 then -((i.natAbs : Nat) : α) else ((i.natAbs : Nat) : α)

/-- The value as a number, if it is one. -/
def number? [Scalar α] : Json α → Option α
  | .int i => some (scalarOfInt i)
  | .float x => some x
  | _ => none

/-- The value under a key of an object; of several entries with that key, the first counts. -/
def field? (key : String) : Json α → Option (Json α)
  | .obj entries => entries.lookup key
  | _ => none

mutual

/-- The value that a tree stands for: objects with distinct, increasing keys at every level. -/
def canonical : Json α → Json α
  | .arr elements => .arr (canonicalElements elements)
  | .obj entries => object (canonicalEntries entries)
  | v => v

/-- The elements of an array in canonical form. -/
def canonicalElements : List (Json α) → List (Json α)
  | [] => []
  | v :: rest => v.canonical :: canonicalElements rest

/-- The entries of an object with their values in canonical form. -/
def canonicalEntries : List (String × Json α) → List (String × Json α)
  | [] => []
  | (k, v) :: rest => (k, v.canonical) :: canonicalEntries rest

end

mutual

/-- The values in a tree that are neither objects nor arrays and are not inside an array, each
with the keys that lead to it. -/
def leaves : Json α → List (List String × Json α)
  | .obj entries => leavesOfEntries entries
  | .arr _ => []
  | v => [([], v)]

/-- The leaves below the entries of an object. -/
def leavesOfEntries : List (String × Json α) → List (List String × Json α)
  | [] => []
  | (k, v) :: rest => v.leaves.map (fun leaf => (k :: leaf.1, leaf.2)) ++ leavesOfEntries rest

end

end Json

end RunCompare
