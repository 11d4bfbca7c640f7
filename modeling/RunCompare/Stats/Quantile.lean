/-
Quantiles by linear interpolation between the two closest ranks.

The `p`-th percentile of `n` sorted samples lies at rank `p / 100 * (n - 1)`,
counted from zero.  Every quartile and every median of this library is computed
here, so that all of them follow the one convention.
-/
import RunCompare.Scalar

namespace RunCompare.Stats

variable {α : Type} [Scalar α]

open Scalar

/-- Whether `p` is a percentage: at least zero and at most a hundred. -/
def isPercentage (p : α) : Bool := decide (zero ≤ p) && decide (p ≤ ((100 : Nat) : α))

/-- The rank of the `p`-th percentile among `n` samples. -/
def percentileRank (n : Nat) (p : α) : α :=
  p / ((100 : Nat) : α) * ((n - 1 : Nat) : α)

/-- The sample at a rank of a sorted series, interpolated between the two closest whole ranks. -/
def atRank (sorted : List α) (rank : α) : Option α :=
  let lower := floorNat rank
  let upper := ceilNat rank
  if lower = upper then sorted[lower]?
  else do
    let low ← sorted[lower]?
    let high ← sorted[upper]?
    return low + (rank - (lower : α)) * (high - low)

/-- The `p`-th percentile of a series that is already sorted; absent if the series is empty or
`p` is no percentage.  A single sample is every percentile of itself. -/
def percentileOfSorted (sorted : List α) (p : α) : Option α :=
  if !isPercentage p then none
  else
    match sorted with
    | [] => none
    | [x] => some x
    | sorted => atRank sorted (percentileRank sorted.length p)

/-- The `p`-th percentile of a series. -/
def percentile (xs : List α) (p : α) : Option α := percentileOfSorted (sorted xs) p

/-- The first quartile of a sorted series. -/
def lowerQuartile (sorted : List α) : Option α := percentileOfSorted sorted ((25 : Nat) : α)

/-- The median of a sorted series. -/
def median (sorted : List α) : Option α := percentileOfSorted sorted ((50 : Nat) : α)

/-- The third quartile of a sorted series. -/
def upperQuartile (sorted : List α) : Option α := percentileOfSorted sorted ((75 : Nat) : α)

end RunCompare.Stats
