/-
Numbers of TOML texts.

Single underscores may stand between digits.  Integers have 64 bits with sign; a
fractional number that is too large is refused, unless it is negative.
-/
import RunCompare.Decimal.Literal
import RunCompare.Text.Hex
import RunCompare.Text.Start
import RunCompare.Toml.Basic

namespace RunCompare.Toml

/-- Digits of one kind with single underscores between them, and the rest. -/
def spanGrouped (isDigit : Char → Bool) : (cs : List Char) → List Char × List Char
  | [] => ([], [])
  | c :: rest =>
    if isDigit c then
      let (digits, rest) := more rest
      (c :: digits, rest)
    else ([], c :: rest)
where
  /-- Digits after a first one. -/
  more : List Char → List Char × List Char
    | [] => ([], [])
    | [c] => if isDigit c then ([c], []) else ([], [c])
    | c :: d :: rest =>
      if isDigit c then
        let (digits, rest) := more (d :: rest)
        (c :: digits, rest)
      else if c = '_' ∧ isDigit d then
        let (digits, rest) := more rest
        (d :: digits, rest)
      else ([], c :: d :: rest)

/-- The value of digits in a base. -/
def inBase (base : Nat) (digits : List Char) : Option Nat :=
  digits.foldlM (fun n c => (Text.hexDigit? c).map (base * n + ·)) 0

/-- An integer in a base other than ten, after its marker. -/
def readBased (base : Nat) (isDigit : Char → Bool) (cs : List Char) : Option (Toml × List Char) :=
  do
    let (digits, rest) := spanGrouped isDigit cs
    let n ← inBase base digits
    if digits.isEmpty || UInt64.size / 2 ≤ n then none else return (integer n, rest)

/-- The whole digits at the start of a number: one zero, or digits that start with another. -/
def spanWhole : List Char → List Char × List Char
  | '0' :: rest => (['0'], rest)
  | cs => spanGrouped Char.isDigit cs

/-- The power of ten of a number, if it has one. -/
def readPower : List Char → Option (Option Int × List Char)
  | c :: rest =>
    if c = 'e' ∨ c = 'E' then
      let (negative, unsigned) := Decimal.spanSign rest
      let (digits, rest) := spanGrouped Char.isDigit unsigned
      let n : Int := Decimal.ofDigitChars digits
      if digits.isEmpty then none else some (some (if negative then -n else n), rest)
    else some (none, c :: rest)
  | [] => some (none, [])

/-- The digits after a point, if there is one. -/
def readFraction : List Char → Option (Option (List Char) × List Char)
  | '.' :: rest =>
    let (digits, rest) := spanGrouped Char.isDigit rest
    if digits.isEmpty then none else some (some digits, rest)
  | cs => some (none, cs)

/-- A number in base ten, after its sign. -/
def readDecimal (negative : Bool) (cs : List Char) : Option (Toml × List Char) := do
  let (whole, rest) := spanWhole cs
  if whole.isEmpty then none
  let (fraction, rest) ← readFraction rest
  let (power, rest) ← readPower rest
  if fraction.isNone && power.isNone then
    let n := Decimal.ofDigitChars whole
    let value : Int := if negative then -n else n
    if Int64.minValue.toInt ≤ value ∧ value ≤ Int64.maxValue.toInt then
      return (integer value, rest)
    else none
  else
    let x := (Decimal.ofDigits negative whole (fraction.getD []) (power.getD 0)).toBinary64
    if x = Binary64.infinity then none else return (float x, rest)

/-- The name of infinity or of the value that is not a number, after a sign. -/
def readNamedNumber (negative : Bool) (cs : List Char) : Option (Toml × List Char) :=
  match Text.afterWord "inf" cs, Text.afterWord "nan" cs with
  | some rest, _ => some (float (.ofParts negative Binary64.infinityMagnitude), rest)
  | none, some rest => some (float (.ofParts negative Binary64.quietNaN.magnitude), rest)
  | none, none => none

/-- A number. -/
def readNumber (cs : List Char) : Option (Toml × List Char) :=
  match cs with
  | '0' :: 'x' :: rest => readBased 16 (fun c => (Text.hexDigit? c).isSome) rest
  | '0' :: 'o' :: rest => readBased 8 (fun c => decide ('0' ≤ c ∧ c ≤ '7')) rest
  | '0' :: 'b' :: rest => readBased 2 (fun c => c == '0' || c == '1') rest
  | cs =>
    let (negative, unsigned) := Decimal.spanSign cs
    match readNamedNumber negative unsigned with
    | some read => some read
    | none => readDecimal negative unsigned

end RunCompare.Toml
