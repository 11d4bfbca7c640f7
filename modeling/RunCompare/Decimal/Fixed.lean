/-
Numbers with a fixed count of decimal places.

The exact binary value is rounded once, a half to the even neighbour.  The sign
is that of the number, so that a negative number which rounds to zero keeps it.
-/
import RunCompare.Decimal.Basic

namespace RunCompare.Decimal

/-- The decimal with `places` places nearest to a finite number. -/
def rounded (places : Nat) (x : Binary64) : Decimal where
  negative := x.isNegative
  digits := Binary64.divToEven (x.units * tenTo places) Binary64.unitsInOne
  exponent := -places

/-- A decimal with a non-positive exponent, written out with all its places. -/
def positional (d : Decimal) : String :=
  let places := (-d.exponent).toNat
  let shown := digitChars d.digits
  let padded := List.replicate (places + 1 - shown.length) '0' ++ shown
  let (whole, fraction) := padded.splitAt (padded.length - places)
  String.ofList ((if d.negative then ['-'] else []) ++ whole
    ++ if fraction.isEmpty then [] else '.' :: fraction)

/-- A finite number with exactly `places` decimal places. -/
def fixed (places : Nat) (x : Binary64) : String := (rounded places x).positional

end RunCompare.Decimal
