/-
Strings of TOML texts.

Double quotes allow escapes, single quotes do not, and three quotes of either
kind let a string run over several lines.
-/
import RunCompare.Text.Hex
import RunCompare.Toml.Line

namespace RunCompare.Toml

/-- The character with a code point written in so many hexadecimal digits, and the rest. -/
def readCodePoint (digits : Nat) (cs : List Char) : Option (Char × List Char) := do
  if cs.length < digits then none
  let n ← Text.hexNumber? (cs.take digits)
  if h : n.isValidChar then return (Char.ofNatAux n h, cs.drop digits) else none

/-- The character that an escape stands for after its backslash, and the rest. -/
def readEscape : List Char → Option (Char × List Char)
  | 'b' :: rest => some ('\x08', rest)
  | 't' :: rest => some ('\t', rest)
  | 'n' :: rest => some ('\n', rest)
  | 'f' :: rest => some ('\x0c', rest)
  | 'r' :: rest => some ('\r', rest)
  | '"' :: rest => some ('"', rest)
  | '\\' :: rest => some ('\\', rest)
  | 'u' :: rest => readCodePoint 4 rest
  | 'U' :: rest => readCodePoint 8 rest
  | _ => none

/-- A string after its opening quote, up to the closing one. -/
def readBasic : (fuel : Nat) → (done : List Char) → List Char → Option (String × List Char)
  | 0, _, _ => none
  | _ + 1, _, [] => none
  | fuel + 1, done, c :: rest =>
    if c = '"' then some (String.ofList done.reverse, rest)
    else if c = '\\' then
      match readEscape rest with
      | some (e, rest) => readBasic fuel (e :: done) rest
      | none => none
    else if isPlain c then readBasic fuel (c :: done) rest
    else none

/-- A string without escapes, after its opening quote. -/
def readLiteral (cs : List Char) : Option (String × List Char) :=
  match cs.dropWhile (fun c => isPlain c && c != '\'') with
  | '\'' :: rest => some (String.ofList (cs.takeWhile fun c => isPlain c && c != '\''), rest)
  | _ => none

/-- The number of times that a quote stands at the start of a text. -/
def countQuotes (quote : Char) (cs : List Char) : Nat := (cs.takeWhile (· == quote)).length

/-- A text without the gaps and line ends at its start. -/
def skipBlank : List Char → List Char
  | '\r' :: '\n' :: rest => skipBlank rest
  | c :: rest => if isGap c || c == '\n' then skipBlank rest else c :: rest
  | [] => []

/-- The rest after a backslash at the end of a line: it takes the line end and all blanks up to
the next character with it. -/
def afterFoldedLine (cs : List Char) : Option (List Char) :=
  (afterNewline (skipGaps cs)).map skipBlank

/-- A string over several lines after its three opening quotes.  Up to two quotes stand for
themselves, also right before the three closing ones; every line end is read as a line feed. -/
def readLong (quote : Char) : (fuel : Nat) → (done : List Char) → List Char →
    Option (String × List Char)
  | 0, _, _ => none
  | _ + 1, _, [] => none
  | fuel + 1, done, c :: rest =>
    if c = quote then
      let n := countQuotes quote (c :: rest)
      if 5 < n then none
      else if 3 ≤ n then
        some (String.ofList (done.reverse ++ List.replicate (n - 3) quote), rest.drop (n - 1))
      else readLong quote fuel (List.replicate n quote ++ done) (rest.drop (n - 1))
    else if c = '\n' then readLong quote fuel ('\n' :: done) rest
    else if c = '\r' then
      match afterNewline (c :: rest) with
      | some rest => readLong quote fuel ('\n' :: done) rest
      | none => none
    else if c = '\\' ∧ quote = '"' then
      match readEscape rest with
      | some (e, rest) => readLong quote fuel (e :: done) rest
      | none =>
        match afterFoldedLine rest with
        | some rest => readLong quote fuel done rest
        | none => none
    else if isPlain c then readLong quote fuel (c :: done) rest
    else none

/-- The rest of a text without a line end at its start. -/
def dropNewline (cs : List Char) : List Char := (afterNewline cs).getD cs

/-- The string at the start of a text. -/
def readString (cs : List Char) : Option (String × List Char) :=
  match cs with
  | '"' :: '"' :: '"' :: rest => readLong '"' (rest.length + 1) [] (dropNewline rest)
  | '"' :: rest => readBasic (rest.length + 1) [] rest
  | '\'' :: '\'' :: '\'' :: rest => readLong '\'' (rest.length + 1) [] (dropNewline rest)
  | '\'' :: rest => readLiteral rest
  | _ => none

end RunCompare.Toml
