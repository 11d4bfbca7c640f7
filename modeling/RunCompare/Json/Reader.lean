/-
Reading JSON texts.

The grammar is the strict one: one value, nothing but blanks around it, no
comments, no control characters in strings and no half of a surrogate pair
without the other.  Arrays and objects may be nested to a given depth.

The recursion is on fuel, which the public functions compute from the length of
the text: every second step consumes a character, so that it cannot run out.
-/
import RunCompare.Json.Number
import RunCompare.Text.Hex
import RunCompare.Text.Start

namespace RunCompare.Json

/-! ### Blanks and strings -/

/-- Whether a character may stand between the tokens of a text. -/
def isGap (c : Char) : Bool := c == ' ' || c == '\t' || c == '\n' || c == '\r'

/-- A text without the gaps at its start. -/
def skipGaps (cs : List Char) : List Char := cs.dropWhile isGap

/-- The characters of a string up to its closing quote, still escaped, and the rest. -/
def spanString (body : List Char) : List Char → Option (List Char × List Char)
  | [] => none
  | ['\\'] => none
  | '"' :: rest => some (body.reverse, rest)
  | '\\' :: c :: rest => spanString (c :: '\\' :: body) rest
  | c :: rest => if c.toNat < 0x20 then none else spanString (c :: body) rest

/-- What a string is made of: characters, and the 16-bit units of `\u` escapes. -/
inductive Piece where
  | char (c : Char)
  | unit (n : Nat)

/-- The character that a one-letter escape stands for. -/
def escaped? : Char → Option Char
  | '"' => some '"'
  | '\\' => some '\\'
  | '/' => some '/'
  | 'b' => some '\x08'
  | 'f' => some '\x0c'
  | 'n' => some '\n'
  | 'r' => some '\r'
  | 't' => some '\t'
  | _ => none

/-- The pieces of an escaped string. -/
def pieces (done : List Piece) : List Char → Option (List Piece)
  | [] => some done.reverse
  | '\\' :: 'u' :: a :: b :: c :: d :: rest =>
    match Text.hexNumber? [a, b, c, d] with
    | some n => pieces (.unit n :: done) rest
    | none => none
  | '\\' :: c :: rest =>
    match escaped? c with
    | some e => pieces (.char e :: done) rest
    | none => none
  | c :: rest => pieces (.char c :: done) rest

/-- The characters that pieces spell; a high surrogate has to be followed by a low one. -/
def spell (done : List Char) : List Piece → Option (List Char)
  | [] => some done.reverse
  | .char c :: rest => spell (c :: done) rest
  | .unit high :: .unit low :: rest =>
    if 0xD800 ≤ high ∧ high < 0xDC00 then
      if 0xDC00 ≤ low ∧ low < 0xE000 then
        spell (Char.ofNat (0x10000 + (high - 0xD800) * 0x400 + (low - 0xDC00)) :: done) rest
      else none
    else if 0xDC00 ≤ high ∧ high < 0xE000 then none
    else spell (Char.ofNat high :: done) (.unit low :: rest)
  | .unit n :: rest =>
    if 0xD800 ≤ n ∧ n < 0xE000 then none else spell (Char.ofNat n :: done) rest

/-- The string that follows an opening quote, and the rest of the text. -/
def readString (cs : List Char) : Option (String × List Char) := do
  let (body, rest) ← spanString [] cs
  let chars ← spell [] (← pieces [] body)
  return (String.ofList chars, rest)

/-! ### Values -/

mutual

/-- The value at the start of a text, and the rest; arrays and objects may open `depth` times. -/
def readValue : (fuel depth : Nat) → List Char → Option (Json Binary64 × List Char)
  | 0, _, _ => none
  | fuel + 1, depth, cs =>
    match skipGaps cs with
    | '"' :: rest => (readString rest).map fun (s, rest) => (.str s, rest)
    | '[' :: rest =>
      if depth = 0 then none
      else
        match skipGaps rest with
        | ']' :: rest => some (.arr [], rest)
        | rest => readElements fuel (depth - 1) [] rest
    | '{' :: rest =>
      if depth = 0 then none
      else
        match skipGaps rest with
        | '}' :: rest => some (.obj [], rest)
        | rest => readEntries fuel (depth - 1) [] rest
    | 't' :: rest => (Text.afterWord "rue" rest).map fun rest => (.bool true, rest)
    | 'f' :: rest => (Text.afterWord "alse" rest).map fun rest => (.bool false, rest)
    | 'n' :: rest => (Text.afterWord "ull" rest).map fun rest => (.null, rest)
    | cs => readNumber cs

/-- The elements of an array up to its closing bracket, after those already read. -/
def readElements : (fuel depth : Nat) → List (Json Binary64) → List Char →
    Option (Json Binary64 × List Char)
  | 0, _, _, _ => none
  | fuel + 1, depth, done, cs =>
    match readValue fuel depth cs with
    | none => none
    | some (v, rest) =>
      match skipGaps rest with
      | ',' :: rest => readElements fuel depth (v :: done) rest
      | ']' :: rest => some (.arr (v :: done).reverse, rest)
      | _ => none

/-- The entries of an object up to its closing brace, after those already read. -/
def readEntries : (fuel depth : Nat) → List (String × Json Binary64) → List Char →
    Option (Json Binary64 × List Char)
  | 0, _, _, _ => none
  | fuel + 1, depth, done, cs =>
    match skipGaps cs with
    | '"' :: rest =>
      match readString rest with
      | none => none
      | some (key, rest) =>
        match skipGaps rest with
        | ':' :: rest =>
          match readValue fuel depth rest with
          | none => none
          | some (v, rest) =>
            match skipGaps rest with
            | ',' :: rest => readEntries fuel depth ((key, v) :: done) rest
            | '}' :: rest => some (.obj ((key, v) :: done).reverse, rest)
            | _ => none
        | _ => none
    | _ => none

end

/-- How deep arrays and objects may be nested in a text that comes from outside. -/
def nestingLimit : Nat := 127

/-- The value of a text, its objects as written. -/
def readWithin (depth : Nat) (text : List Char) : Option (Json Binary64) :=
  match readValue (2 * text.length + 2) depth text with
  | some (v, rest) => if (skipGaps rest).isEmpty then some v else none
  | none => none

/-- The value of a text whose arrays and objects are nested within the limit. -/
def read (text : List Char) : Option (Json Binary64) := readWithin nestingLimit text

end RunCompare.Json
