/-
Mean and spread of a series.

Both come from one pass that updates the mean by each sample's deviation from
it.  A run of identical samples keeps every deviation at zero, so that its mean
is the sample itself and its spread is exactly zero, however the arithmetic
rounds.
-/
import RunCompare.Scalar

namespace RunCompare.Stats

variable {α : Type} [Scalar α]

open Scalar

/-- What one pass over a series has seen: how many samples, their mean, and the sum of their
squared deviations from it. -/
structure Moments (α : Type) where
  count : Nat
  mean : α
  squares : α

namespace Moments

/-- The moments of no samples. -/
def start : Moments α := ⟨0, zero, zero⟩

/-- The moments with one more sample. -/
def add (m : Moments α) (x : α) : Moments α :=
  let deviation := x - m.mean
  let mean := m.mean + deviation / ((m.count + 1 : Nat) : α)
  ⟨m.count + 1, mean, m.squares + deviation * (x - mean)⟩

/-- The moments of a series. -/
def ofSamples (xs : List α) : Moments α := xs.foldl add start

/-- The mean squared deviation, taken as zero if rounding left it below zero. -/
def variance (m : Moments α) : α :=
  let v := m.squares / ((m.count : Nat) : α)
  if zero < v then v else zero

end Moments

/-- Arithmetic mean; absent for an empty series. -/
def mean (xs : List α) : Option α :=
  if xs.isEmpty then none else some (Moments.ofSamples xs).mean

/-- Standard deviation of a whole population; absent for an empty series. -/
def stdDev (xs : List α) : Option α :=
  if xs.isEmpty then none else some (sqrt (Moments.ofSamples xs).variance)

end RunCompare.Stats
