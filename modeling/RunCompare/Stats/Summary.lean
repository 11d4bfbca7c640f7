/-
Count, sum, mean and quartiles of a series.

An empty series has count zero and no mean and no quartile, which keeps it
apart from a series whose values are zero.
-/
import RunCompare.Stats.Moments
import RunCompare.Stats.Quantile

namespace RunCompare.Stats

variable {α : Type} [Scalar α]

open Scalar

/-- Count, sum, mean and quartiles. -/
structure Summary (α : Type) where
  count : Nat
  sum : α
  mean : Option α
  q1 : Option α
  median : Option α
  q3 : Option α

namespace Summary

/-- The summary of a series that is already sorted. -/
def ofSorted (xs : List α) : Summary α where
  count := xs.length
  sum := Scalar.sum xs
  mean := Stats.mean xs
  q1 := lowerQuartile xs
  median := Stats.median xs
  q3 := upperQuartile xs

/-- The summary of a series; it does not depend on the order of the samples. -/
def ofSamples (xs : List α) : Summary α := ofSorted (sorted xs)

/-- The summary of no samples. -/
def empty : Summary α := ofSamples []

/-- Whether no samples were summarized. -/
def isEmpty (s : Summary α) : Bool := s.count == 0

end Summary

end RunCompare.Stats
