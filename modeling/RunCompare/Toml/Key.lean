/-
Keys of TOML texts.
-/
import RunCompare.Toml.Quoted

namespace RunCompare.Toml

/-- Whether a character may stand in a key without quotes. -/
def inBareKey (c : Char) : Bool := c.isAlphanum || c == '_' || c == '-'

/-- One part of a key. -/
def readKeyPart (cs : List Char) : Option (String × List Char) :=
  match cs with
  | '"' :: rest => readBasic (rest.length + 1) [] rest
  | '\'' :: rest => readLiteral rest
  | cs =>
    let part := cs.takeWhile inBareKey
    if part.isEmpty then none else some (String.ofList part, cs.dropWhile inBareKey)

/-- Keys have fewer parts, and arrays and braces nest less deeply. -/
def nestingBound : Nat := 80

/-- The parts of a dotted key, with the gaps around them; the fuel bounds their number. -/
def readKeyParts : (fuel : Nat) → List Char → Option (List String × List Char)
  | 0, _ => none
  | fuel + 1, cs => do
    let (part, rest) ← readKeyPart (skipGaps cs)
    match skipGaps rest with
    | '.' :: rest =>
      let (parts, rest) ← readKeyParts fuel rest
      return (part :: parts, rest)
    | rest => return ([part], rest)

/-- A dotted key. -/
def readKey (cs : List Char) : Option (List String × List Char) :=
  readKeyParts (nestingBound - 1) cs

end RunCompare.Toml
