/-
The shortest decimal that reads back.

A finite number stands for every real that rounds to it: an interval around
`m · 2 ^ q` whose ends belong to it exactly if `m` is even.  Of the decimals in
that interval the shortest is the one on the coarsest grid of powers of ten,
and on that grid the nearest one is taken.  If any point of a grid lies in the
interval, one of the two grid points next to the number does, so that two
candidates for each grid are enough.
-/
import RunCompare.Decimal.Basic

namespace RunCompare.Decimal

/-- Reals that round to `m · 2 ^ (q - 1074)`, in quarters of the last place: from `low` to
`high`, with the ends if `closed`. -/
structure RoundingInterval where
  low : Nat
  high : Nat
  closed : Bool

/-- The interval of a number with significand `m` and exponent `q`.  Below a power of two the
neighbours are twice as dense. -/
def roundingInterval (m q : Nat) : RoundingInterval where
  low := if m = Binary64.fractionCount ∧ q ≠ 0 then 4 * m - 1 else 4 * m - 2
  high := 4 * m + 2
  closed := m % 2 == 0

/-- Whether `d · 10 ^ e` lies in an interval with exponent `q`. -/
def RoundingInterval.contains (i : RoundingInterval) (q d : Nat) (e : Int) : Bool :=
  let point := 4 * d * tenTo e * Binary64.unitsInOne
  let unit := tenTo (-e) <<< q
  if i.closed then decide (i.low * unit ≤ point ∧ point ≤ i.high * unit)
  else decide (i.low * unit < point ∧ point < i.high * unit)

/-- The better of the two points of the grid `10 ^ e` next to `m · 2 ^ (q - 1074)`, if it reads
back: the nearer one, or the even one of two equally near. -/
def onGrid (m q : Nat) (e : Int) : Option Nat :=
  let num := (m * tenTo (-e)) <<< q
  let den := Binary64.unitsInOne * tenTo e
  let below := num / den
  let nearest := Binary64.divToEven num den
  let other := if nearest = below then below + 1 else below
  let interval := roundingInterval m q
  if interval.contains q nearest e then some nearest
  else if interval.contains q other e then some other
  else none

/-- The first of `steps` grids, from `10 ^ e` downwards, on which a point reads back. -/
def coarsest (m q : Nat) : Nat → Int → Option (Nat × Int)
  | 0, _ => none
  | steps + 1, e =>
    match onGrid m q e with
    | some d => some (d, e)
    | none => coarsest m q steps (e - 1)

/-- The shortest decimal that reads back as a finite number, and of those the nearest. -/
def shortest (x : Binary64) : Decimal :=
  let m := x.significand
  let q := x.exponent
  let log2 : Int := (m.log2 + q : Nat) - 1074
  let (digits, exponent) := (coarsest m q 22 (log2 * 30103 / 100000 + 2)).getD (0, 0)
  { negative := x.isNegative, digits, exponent := if digits = 0 then 0 else exponent }

end RunCompare.Decimal
