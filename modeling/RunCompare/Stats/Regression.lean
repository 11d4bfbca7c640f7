/-
The least-squares line through a list of points.

If all points have one abscissa the line is flat, at the mean of the ordinates.
The share of variance that the line explains is absent if the ordinates do not
vary: zero and one would both be wrong.
-/
import RunCompare.Stats.Moments

namespace RunCompare.Stats

variable {α : Type} [Scalar α]

open Scalar

/-- A fitted line and how well it fits. -/
structure Fit (α : Type) where
  slope : α
  intercept : α
  /-- The sum of the squared deviations of the ordinates from their mean. -/
  total : α
  /-- The sum of the squared deviations of the ordinates from the line. -/
  residual : α
  /-- The share of `total` that the line explains. -/
  explained : Option α

/-- The ordinate of the line at an abscissa. -/
def Fit.predict (fit : Fit α) (x : α) : α := fit.slope * x + fit.intercept

/-- The number of points, and the line through them if there are any. -/
structure Regression (α : Type) where
  count : Nat
  fit : Option (Fit α)

/-- Whether each value equals the next one. -/
def allEqual : List α → Bool
  | x :: y :: rest => x == y && allEqual (y :: rest)
  | _ => true

namespace Regression

/-- The line through points whose coordinates have the given means. -/
def fitThrough (points : List (α × α)) (meanX meanY : α) : Fit α :=
  let covariation := sum (points.map fun p => (p.1 - meanX) * (p.2 - meanY))
  let variation := sum (points.map fun p => square (p.1 - meanX))
  let slope := if variation == zero then zero else covariation / variation
  let intercept := meanY - slope * meanX
  let residual := sum (points.map fun p => square (p.2 - (slope * p.1 + intercept)))
  let total :=
    if allEqual (points.map (·.2)) then zero
    else sum (points.map fun p => square (p.2 - meanY))
  { slope, intercept, total, residual,
    explained := if zero < total then some (one - residual / total) else none }

/-- The least-squares line through points. -/
def ofPoints (points : List (α × α)) : Regression α where
  count := points.length
  fit := do
    let meanX ← mean (points.map (·.1))
    let meanY ← mean (points.map (·.2))
    return fitThrough points meanX meanY

/-- The regression without points. -/
def empty : Regression α := ⟨0, none⟩

end Regression

end RunCompare.Stats
