/-
Reading TOML documents.

A document is a list of lines: blank lines, comments, headers of tables, and
definitions, which belong to the table of the last header.
-/
import RunCompare.Toml.Reader

namespace RunCompare.Toml

/-- What has been read of a document: its entries, and the path of the table to which the next
definition belongs. -/
structure Partial where
  entries : Entries
  current : List String

/-- The path of a header up to its closing brackets, and the rest of its line. -/
def readHeader (closing : String) (cs : List Char) : Option (List String × List Char) := do
  let (path, rest) ← readKey cs
  return (path, ← afterLine (← Text.afterWord closing rest))

/-- Opens the table of a header, by a rule for the last part of its path. -/
def openTable (rule : String → Entries → Option Entries) (path : List String) (doc : Partial) :
    Option Partial := do
  let (parents, key) ← splitKey path
  let entries ← changeAt .implied (fun _ => rule key) parents .header doc.entries
  return { entries, current := path }

/-- Puts the value of a definition into the current table. -/
def defineIn (key : List String) (v : Toml) (doc : Partial) : Option Partial := do
  let (path, last) ← splitKey key
  let entries ← changeAt .implied (define path last v) doc.current .header doc.entries
  return { doc with entries }

/-- A definition, and the rest after its line. -/
def readDefinition (cs : List Char) : Option ((List String × Toml) × List Char) := do
  let (key, rest) ← readKey cs
  let value := skipGaps (← Text.afterChar '=' rest)
  let (v, rest) ← readValue (2 * value.length + 2) 0 value
  return ((key, v), ← afterLine rest)

/-- Reads the lines of a document; the fuel is more than their number. -/
def readDocument : (fuel : Nat) → Partial → List Char → Option Entries
  | 0, _, _ => none
  | fuel + 1, doc, cs =>
    match skipGaps cs with
    | [] => some doc.entries
    | '#' :: rest => do readDocument fuel doc (← afterLine ('#' :: rest))
    | '\n' :: rest => readDocument fuel doc rest
    | '\r' :: rest => do readDocument fuel doc (← afterNewline ('\r' :: rest))
    | '[' :: '[' :: rest => do
      let (path, rest) ← readHeader "]]" rest
      readDocument fuel (← openTable openElement path doc) rest
    | '[' :: rest => do
      let (path, rest) ← readHeader "]" rest
      readDocument fuel (← openTable nameTable path doc) rest
    | cs => do
      let ((key, v), rest) ← readDefinition cs
      readDocument fuel (← defineIn key v doc) rest

/-- A text without the mark of the byte order at its start. -/
def dropByteOrderMark : List Char → List Char
  | '\uFEFF' :: rest => rest
  | cs => cs

/-- The entries of a document. -/
def ofText? (text : String) : Option Entries :=
  let cs := dropByteOrderMark text.toList
  readDocument (cs.length + 1) ⟨[], []⟩ cs

end RunCompare.Toml
