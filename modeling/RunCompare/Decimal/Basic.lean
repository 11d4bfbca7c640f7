/-
Decimal numbers, and the binary number nearest to one.

A `Decimal` is `± digits · 10 ^ exponent`.  It stands between texts and 64-bit
numbers: literals are read into decimals, which are then rounded once, and
printed numbers are decimals chosen among those that round back.
-/
import RunCompare.Binary64.Basic

namespace RunCompare

/-- The number `± digits · 10 ^ exponent`. -/
structure Decimal where
  negative : Bool
  digits : Nat
  exponent : Int
deriving DecidableEq, Inhabited, Repr

namespace Decimal

/-- The digits of a natural number in base ten, the most significant first. -/
def digitChars (n : Nat) : List Char := Nat.toDigits 10 n

/-- The natural number that a list of digits denotes in base ten. -/
def ofDigitChars (cs : List Char) : Nat :=
  cs.foldl (fun n c => 10 * n + (c.toNat - '0'.toNat)) 0

/-- A power of ten; one for a negative exponent. -/
def tenTo (n : Int) : Nat := Nat.pow 10 n.toNat

/-- One more than the exponent of the first digit: `d.d… · 10 ^ (top - 1)`. -/
def top (d : Decimal) : Int := d.exponent + (digitChars d.digits).length

/-- Decimals whose first digit stands for more than this power of ten overflow. -/
private def largestTop : Int := 400

/-- The 64-bit number nearest to a decimal; a half goes to the even neighbour.

A decimal far outside the range of the format is infinite or zero, and is not computed with. -/
def toBinary64 (d : Decimal) : Binary64 :=
  if d.digits = 0 then Binary64.ofParts d.negative 0
  else if largestTop < d.top then
    Binary64.ofParts d.negative Binary64.infinityMagnitude
  else if d.top < -largestTop then Binary64.ofParts d.negative 0
  else Binary64.ofRatio d.negative (d.digits * tenTo d.exponent) (tenTo (-d.exponent))

end Decimal

end RunCompare
