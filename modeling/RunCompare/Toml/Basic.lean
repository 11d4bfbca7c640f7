/-
TOML values, and the rules by which the lines of a document build tables.

A table may be extended by later lines or not according to how it came to be.
One that a header names may be named once; one that only stands on the way of a
longer header may still be named; one made by a dotted key may be extended by
dotted keys alone; and one written in braces is complete.
-/
import RunCompare.Binary64.Basic

namespace RunCompare

/-- How a table came to be. -/
inductive TableOrigin where
  /-- Named by a header, or the document itself. -/
  | header
  /-- On the way of a header to a deeper table. -/
  | implied
  /-- On the way of a dotted key. -/
  | dotted
  /-- Written in braces. -/
  | braces
deriving DecidableEq, Repr

/-- A TOML value. -/
inductive Toml where
  | text (s : String)
  | bool (b : Bool)
  | integer (i : Int)
  | float (x : Binary64)
  /-- A date, a time of day or both, as written. -/
  | moment (written : String)
  | array (elements : List Toml)
  | table (origin : TableOrigin) (entries : List (String × Toml))
  /-- Tables under one name, each opened by a header in double brackets. -/
  | tables (elements : List (List (String × Toml)))
deriving Inhabited

namespace Toml

/-- The entries of a table. -/
abbrev Entries := List (String × Toml)

/-- A list of entries with another value for a key that it has. -/
def replace (key : String) (v : Toml) (entries : Entries) : Entries :=
  entries.map fun e => if e.1 = key then (key, v) else e

/-- Changes the table that a path leads to from a table of some origin.

Tables that do not exist yet are made with origin `made`.  An array of tables leads on to its
last one.  Dotted keys do not enter a table that a header has named, and nothing enters a table
in braces. -/
def changeAt (made : TableOrigin) (change : TableOrigin → Entries → Option Entries) :
    (path : List String) → TableOrigin → Entries → Option Entries
  | [], origin, entries => change origin entries
  | key :: path, _, entries =>
    match entries.lookup key with
    | none => do return entries ++ [(key, table made (← changeAt made change path made []))]
    | some (table origin inner) =>
      if origin = .braces ∨ (made = .dotted ∧ origin = .header) then none
      else do return replace key (table origin (← changeAt made change path origin inner)) entries
    | some (tables elements) =>
      match elements.getLast? with
      | none => none
      | some last => do
        let changed ← changeAt made change path .header last
        return replace key (tables (elements.dropLast ++ [changed])) entries
    | some _ => none

/-- Names the table under a key by a header. -/
def nameTable (key : String) (entries : Entries) : Option Entries :=
  match entries.lookup key with
  | none => some (entries ++ [(key, table .header [])])
  | some (table .implied inner) => some (replace key (table .header inner) entries)
  | some _ => none

/-- Opens another table of the array of tables under a key. -/
def openElement (key : String) (entries : Entries) : Option Entries :=
  match entries.lookup key with
  | none => some (entries ++ [(key, tables [[]])])
  | some (tables elements) => some (replace key (tables (elements ++ [[]])) entries)
  | some _ => none

/-- Puts a value under a dotted key, given by its last part and those before it. -/
def define (path : List String) (key : String) (v : Toml) (origin : TableOrigin)
    (entries : Entries) : Option Entries :=
  changeAt .dotted
    (fun origin entries =>
      if (!path.isEmpty && origin != .dotted) || (entries.lookup key).isSome then none
      else some (entries ++ [(key, v)]))
    path origin entries

/-- The last part of a dotted key and the parts before it. -/
def splitKey (key : List String) : Option (List String × String) :=
  key.getLast?.map fun last => (key.dropLast, last)

/-- The table in braces with the given dotted keys. -/
def ofBraces (definitions : List (List String × Toml)) : Option Toml :=
  (definitions.foldlM
    (fun entries (key, v) => do
      let (path, last) ← splitKey key
      define path last v .braces entries)
    []).map (table .braces)

end Toml

end RunCompare
