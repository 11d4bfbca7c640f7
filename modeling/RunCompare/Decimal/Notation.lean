/-
Writing decimals with a point or with a power of ten.
-/
import RunCompare.Decimal.Shortest
import RunCompare.Decimal.Fixed

namespace RunCompare.Decimal

/-- The exponent of the first digit: `d.d… · 10 ^ n`. -/
def leadingExponent (d : Decimal) : Int := d.top - 1

/-- Positional notation: all digits, at least one of them after the point. -/
def plain (d : Decimal) : String :=
  if d.exponent < 0 then d.positional
  else
    { d with digits := d.digits * tenTo (d.exponent + 1), exponent := -1 : Decimal }.positional

/-- Scientific notation: one digit before the point, and a power of ten with its sign. -/
def scientific (d : Decimal) : String :=
  let sign := if d.negative then "-" else ""
  let power := d.leadingExponent
  let tail := (if power < 0 then "e-" else "e+") ++ toString power.natAbs
  match digitChars d.digits with
  | [] => sign ++ "0" ++ tail
  | [c] => sign ++ c.toString ++ tail
  | c :: rest => sign ++ c.toString ++ "." ++ String.ofList rest ++ tail

end RunCompare.Decimal
