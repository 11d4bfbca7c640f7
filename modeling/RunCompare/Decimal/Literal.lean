/-
Decimal literals.

A literal is a sign, digits with an optional point among them, and an optional
power of ten; or a name of infinity or of the value that is not a number.
-/
import RunCompare.Decimal.Basic

namespace RunCompare.Decimal

/-- The digits at the start of a text, and the rest. -/
def spanDigits (cs : List Char) : List Char × List Char :=
  (cs.takeWhile Char.isDigit, cs.dropWhile Char.isDigit)

/-- The decimal with the given digits before and after the point, times a power of ten. -/
def ofDigits (negative : Bool) (whole fraction : List Char) (power : Int) : Decimal where
  negative := negative
  digits := ofDigitChars (whole ++ fraction)
  exponent := power - fraction.length

/-- A sign at the start of a text, and the rest. -/
def spanSign : List Char → Bool × List Char
  | '-' :: rest => (true, rest)
  | '+' :: rest => (false, rest)
  | cs => (false, cs)

/-- An optional power of ten that ends the text: `e` or `E`, a sign and at least one digit. -/
def readPower : List Char → Option Int
  | [] => some 0
  | c :: rest =>
    if c = 'e' ∨ c = 'E' then
      let (negative, digits) := spanSign rest
      if !digits.isEmpty && digits.all Char.isDigit then
        some (if negative then -(ofDigitChars digits : Int) else ofDigitChars digits)
      else none
    else none

/-- A number written out: a sign, digits with or without a point, a power of ten. -/
def readDecimal (cs : List Char) : Option Decimal :=
  let (negative, unsigned) := spanSign cs
  let (whole, rest) := spanDigits unsigned
  let (fraction, rest) :=
    match rest with
    | '.' :: rest => spanDigits rest
    | rest => ([], rest)
  if whole.isEmpty && fraction.isEmpty then none
  else (readPower rest).map (ofDigits negative whole fraction)

/-- The number that a text denotes, rounded to 64 bits. -/
def readBinary64 (text : String) : Option Binary64 :=
  let cs := text.toList
  let (negative, unsigned) := spanSign cs
  let name := String.ofList (unsigned.map Char.toLower)
  if name = "nan" then
    some (Binary64.ofParts negative Binary64.quietNaN.magnitude)
  else if name = "inf" ∨ name = "infinity" then
    some (Binary64.ofParts negative Binary64.infinityMagnitude)
  else (readDecimal cs).map toBinary64

end RunCompare.Decimal
