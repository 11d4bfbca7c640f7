/-
Writing JSON texts, on one line or indented.

Fractional numbers have the fewest digits that read back: with a point from
`10 ^ -5` up to `10 ^ 16`, with a power of ten beyond.  A string escapes
quotes, backslashes and control characters.  The indented form gives every
element and entry a line of its own, two blanks deeper than its container, and
writes an empty array or object as its two brackets.
-/
import RunCompare.Json.Basic
import RunCompare.Binary64.Scalar
import RunCompare.Decimal.Notation

namespace RunCompare.Json

/-- Numbers whose first digit stands for at least this power of ten are written with a point. -/
def leastPositional : Int := -5

/-- Numbers whose first digit stands for this power of ten are written with a power of ten. -/
def positionalBound : Int := 16

/-- The text of a finite number. -/
def numberText (x : Binary64) : String :=
  let d := Decimal.shortest x
  let power := d.leadingExponent
  if d.digits = 0 ∨ (leastPositional ≤ power ∧ power < positionalBound) then d.plain
  else d.scientific

/-- The lowercase hexadecimal digit of a number below sixteen. -/
def hexChar (n : Nat) : Char := Nat.digitChar n

/-- A character as it stands in a string. -/
def escapeChar (c : Char) : List Char :=
  match c with
  | '"' => ['\\', '"']
  | '\\' => ['\\', '\\']
  | '\x08' => ['\\', 'b']
  | '\x0c' => ['\\', 'f']
  | '\n' => ['\\', 'n']
  | '\r' => ['\\', 'r']
  | '\t' => ['\\', 't']
  | c =>
    if c.toNat < 0x20 then
      ['\\', 'u', '0', '0', hexChar (c.toNat / 16), hexChar (c.toNat % 16)]
    else [c]

/-- A string in quotes. -/
def quote (s : String) : String :=
  String.ofList ('"' :: s.toList.flatMap escapeChar ++ ['"'])

/-- The text of a value that is neither an array nor an object. -/
def atomText : Json Binary64 → String
  | .bool b => if b then "true" else "false"
  | .int i => toString i
  | .float x => if x.isFinite then numberText x else "null"
  | .str s => quote s
  | _ => "null"

mutual

/-- The text of a value on one line, without blanks. -/
def compact : Json Binary64 → String
  | .arr elements => "[" ++ ",".intercalate (compactElements elements) ++ "]"
  | .obj entries => "\x7b" ++ ",".intercalate (compactEntries entries) ++ "\x7d"
  | v => atomText v

/-- The texts of the elements of an array. -/
def compactElements : List (Json Binary64) → List String
  | [] => []
  | v :: rest => compact v :: compactElements rest

/-- The texts of the entries of an object. -/
def compactEntries : List (String × Json Binary64) → List String
  | [] => []
  | (k, v) :: rest => (quote k ++ ":" ++ compact v) :: compactEntries rest

end

/-- The parts of a container between its brackets, one a line; `margin` starts its last line. -/
def block (margin opening closing : String) (parts : List String) : String :=
  if parts.isEmpty then opening ++ closing
  else
    let inner := "\n" ++ margin ++ "  "
    opening ++ inner ++ ("," ++ inner).intercalate parts ++ "\n" ++ margin ++ closing

mutual

/-- The text of a value with a line for each element and entry, at a margin. -/
def indentedAt (margin : String) : Json Binary64 → String
  | .arr elements => block margin "[" "]" (indentedElements (margin ++ "  ") elements)
  | .obj entries => block margin "\x7b" "\x7d" (indentedEntries (margin ++ "  ") entries)
  | v => atomText v

/-- The texts of the elements of an array at a margin. -/
def indentedElements (margin : String) : List (Json Binary64) → List String
  | [] => []
  | v :: rest => indentedAt margin v :: indentedElements margin rest

/-- The texts of the entries of an object at a margin. -/
def indentedEntries (margin : String) : List (String × Json Binary64) → List String
  | [] => []
  | (k, v) :: rest => (quote k ++ ": " ++ indentedAt margin v) :: indentedEntries margin rest

end

/-- The text of a value with a line for each element and entry. -/
def indented (v : Json Binary64) : String := indentedAt "" v

end RunCompare.Json
