/-
The numbers of JSON texts.

A number without point and exponent is an integer if it fits into 64 bits with
or without sign.  Every other number is fractional, `-0` included: it is the
negative zero.

A fractional number is read in two steps that are each rounded.  Its digits are
cut off to a decimal whose digits make a number of 64 bits; that number is
rounded, and its product or quotient with a power of ten is rounded again.  The
value may therefore differ from the nearest one in its last place, as for
`1e-23`.  A number too large for the format is refused.
-/
import RunCompare.Json.Basic
import RunCompare.Binary64.Scalar
import RunCompare.Decimal.Literal

namespace RunCompare.Json

/-! ### Cutting off digits -/

/-- A number with as many of the given digits appended as 64 bits hold, and the digits left
over. -/
def gather (significand : Nat) : List Char → Nat × List Char
  | [] => (significand, [])
  | c :: rest =>
    let longer := 10 * significand + (c.toNat - '0'.toNat)
    if longer < UInt64.size then gather longer rest else (significand, c :: rest)

/-- The decimal with the given digits before and after the point, times a power of ten, cut off
to digits that fit into 64 bits.

The digits left over of the whole part count as zeros.  Those of the fraction are dropped, but
its first digits are tried anew: a small one may fit where a larger digit did not. -/
def cutOff (negative : Bool) (whole fraction : List Char) (power : Int) : Decimal :=
  let (significand, zeros) := gather 0 whole
  let (significand, dropped) := gather significand fraction
  { negative
    digits := significand
    exponent := power + zeros.length - (fraction.length - dropped.length : Nat) }

/-! ### Scaling by powers of ten -/

/-- The largest power of ten in the range of the format. -/
def largestPower : Nat := 308

/-- The number nearest to a power of ten. -/
def powerOfTen (n : Nat) : Binary64 := Binary64.ofNat (Decimal.tenTo n)

/-- The product with ten to the `n`, unless it is too large; zero stays zero for every `n`. -/
def grow (x : Binary64) (n : Nat) : Option Binary64 :=
  if x.magnitude = 0 then some x
  else if largestPower < n then none
  else
    let product := x * powerOfTen n
    if product.isFinite then some product else none

/-- The quotient by ten to the `n`, by the largest power as often as `n` exceeds it; a zero on
the way is the result. -/
def shrink (x : Binary64) (n : Nat) : Binary64 :=
  if n ≤ largestPower then x / powerOfTen n
  else if x.magnitude = 0 then x
  else shrink (x / powerOfTen largestPower) (n - largestPower)
termination_by n
decreasing_by simp only [largestPower] at *; omega

/-- The value that a decimal is read as: its digits rounded, then scaled; the sign comes last. -/
def approximate (d : Decimal) : Option Binary64 :=
  let x := Binary64.ofNat d.digits
  let scaled :=
    if 0 ≤ d.exponent then grow x d.exponent.toNat else some (shrink x d.exponent.natAbs)
  scaled.map fun y => if d.negative then -y else y

/-! ### Literals -/

/-- The fractional number with the given digits before and after the point, times a power of
ten. -/
def ofFractionalLiteral (negative : Bool) (whole fraction : List Char) (power : Int) :
    Option (Json Binary64) :=
  (approximate (cutOff negative whole fraction power)).map .float

/-- The value of a number without point and exponent. -/
def ofIntegerLiteral (negative : Bool) (digits : List Char) : Option (Json Binary64) :=
  let n := Decimal.ofDigitChars digits
  let inRange := if negative then n != 0 && n ≤ UInt64.size / 2 else n < UInt64.size
  if inRange then some (.int (if negative then -(n : Int) else n))
  else ofFractionalLiteral negative digits [] 0

/-- The digits after a point, if there is one, and the rest; a point needs digits. -/
def readFraction : List Char → Option (List Char × List Char)
  | '.' :: rest =>
    let (digits, rest) := Decimal.spanDigits rest
    if digits.isEmpty then none else some (digits, rest)
  | cs => some ([], cs)

/-- The digits of an exponent, with its sign, and the rest. -/
def readExponent (cs : List Char) : Option (Int × List Char) :=
  let (negative, unsigned) := Decimal.spanSign cs
  let (digits, rest) := Decimal.spanDigits unsigned
  let n : Int := Decimal.ofDigitChars digits
  if digits.isEmpty then none else some (if negative then -n else n, rest)

/-- The power of ten of a number, if it has one, and the rest. -/
def readPower : List Char → Option (Option Int × List Char)
  | c :: rest =>
    if c == 'e' || c == 'E' then
      (readExponent rest).map fun (n, rest) => (some n, rest)
    else some (none, c :: rest)
  | [] => some (none, [])

/-- The number at the start of a text, and the rest.  A whole part of several digits does not
start with zero. -/
def readNumber (cs : List Char) : Option (Json Binary64 × List Char) := do
  let negative := cs.head? == some '-'
  let (whole, rest) := Decimal.spanDigits (if negative then cs.drop 1 else cs)
  if whole.isEmpty || (whole.length != 1 && whole.head? == some '0') then none
  let (fraction, rest) ← readFraction rest
  let (power, rest) ← readPower rest
  let value ←
    if fraction.isEmpty && power.isNone then ofIntegerLiteral negative whole
    else ofFractionalLiteral negative whole fraction (power.getD 0)
  return (value, rest)

end RunCompare.Json
