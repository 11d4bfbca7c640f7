/-
The standard normal distribution function.

`Φ x = erfc (-x / √2) / 2`, where the complementary error function is the
Chebyshev fit whose fractional error is below `1.2e-7` everywhere.  It is
written over any numbers that have an exponential function and the constants of
the fit.
-/

namespace RunCompare.Stats

/-- What the distribution function needs of its numbers besides their arithmetic. -/
structure NormalFunctions (α : Type) where
  /-- Magnitude. -/
  abs : α → α
  /-- Exponential function. -/
  exp : α → α
  /-- The number nearest to the square root of two. -/
  sqrtTwo : α
  /-- The number nearest to a quotient of naturals, with a sign. -/
  ofRatio : Bool → Nat → Nat → α

namespace NormalFunctions

variable {α : Type} [Add α] [Sub α] [Mul α] [Div α] [Neg α] [NatCast α] [LE α] [DecidableLE α]
  (fs : NormalFunctions α)

/-- The value nearest to `digits / 10 ^ 8`. -/
def hundredMillionths (negative : Bool) (digits : Nat) : α := fs.ofRatio negative digits 100000000

/-- Coefficients of the fit from the constant term upwards. -/
def fitCoefficients : List α :=
  [fs.hundredMillionths false 100002368, fs.hundredMillionths false 37409196,
    fs.hundredMillionths false 9678418, fs.hundredMillionths true 18628806,
    fs.hundredMillionths false 27886807, fs.hundredMillionths true 113520398,
    fs.hundredMillionths false 148851587, fs.hundredMillionths true 82215223,
    fs.hundredMillionths false 17087277]

/-- Value of a polynomial by nested multiplication, `c₀ + t * (c₁ + t * ⋯)`. -/
def nested (t : α) : List α → α
  | [] => ((0 : Nat) : α)
  | [c] => c
  | c :: rest => c + t * nested t rest

/-- Complementary error function. -/
def erfc (x : α) : α :=
  let z := fs.abs x
  let t := ((1 : Nat) : α) / (((1 : Nat) : α) + fs.ofRatio false 1 2 * z)
  let fit := -z * z - fs.hundredMillionths false 126551223 + t * nested t fs.fitCoefficients
  let tail := t * fs.exp fit
  if ((0 : Nat) : α) ≤ x then tail else ((2 : Nat) : α) - tail

/-- Distribution function of the standard normal distribution. -/
def cdf (x : α) : α := fs.ofRatio false 1 2 * fs.erfc (-x / fs.sqrtTwo)

end NormalFunctions

end RunCompare.Stats
