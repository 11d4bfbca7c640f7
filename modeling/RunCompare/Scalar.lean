/-
The numbers that the statistics are written over.

Every statistic of this library is written once, over a type of numbers that
supplies arithmetic, two comparisons and a handful of conversions.  `Binary64`
is the type the program runs with; the rationals, with an arbitrary square root
and an arbitrary normal distribution function, are the type in which the
algebra of the statistics is stated.  Nothing here says that the operations are
exact: a law that needs exactness is a law about the rationals.

Two orders are kept apart.  `x < y` and `x ≤ y` are the numeric comparisons,
which a value that is not a number never satisfies.  `totalLe` ranks every two
values, and is the order that sorting uses.
-/

namespace RunCompare

/-- Numbers with possibly rounded arithmetic, a numeric order and a total order. -/
class Scalar (α : Type) extends Add α, Sub α, Mul α, Div α, Neg α, NatCast α, LT α, LE α,
    BEq α where
  /-- The numeric order can be tested. -/
  decLt : DecidableLT α
  /-- The weak numeric order can be tested. -/
  decLe : DecidableLE α
  /-- The total order, used for sorting. -/
  totalLe : α → α → Bool
  /-- Whether a value is a finite number. -/
  isFinite : α → Bool
  /-- Magnitude. -/
  abs : α → α
  /-- Square root. -/
  sqrt : α → α
  /-- Distribution function of the standard normal distribution. -/
  normalCdf : α → α
  /-- The greatest natural number that is at most the value, `0` below zero. -/
  floorNat : α → Nat
  /-- The least natural number that is at least the value. -/
  ceilNat : α → Nat

namespace Scalar

variable {α : Type} [Scalar α]

instance (x y : α) : Decidable (x < y) := decLt x y

instance (x y : α) : Decidable (x ≤ y) := decLe x y

/-- The number zero. -/
def zero : α := ((0 : Nat) : α)

/-- The number one. -/
def one : α := ((1 : Nat) : α)

/-- Sum in order, from negative zero: the neutral element of rounded addition. -/
def sum (xs : List α) : α := xs.foldl (· + ·) (-zero)

/-- The square of a value. -/
def square (x : α) : α := x * x

/-- Sorted copy, ascending by the total order. -/
def sorted (xs : List α) : List α := xs.mergeSort totalLe

/-- The value if it is at least `low` and at most `high`, else the bound that it crosses. -/
def clamp (low high x : α) : α :=
  if x < low then low else if high < x then high else x

end Scalar

end RunCompare
