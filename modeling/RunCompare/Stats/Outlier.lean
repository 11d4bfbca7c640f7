/-
Outliers by their distance from the quartiles.

A sample is an outlier if it lies more than one and a half interquartile ranges
below the first or above the third quartile.  A series of fewer than four
samples has no fences, and only a value that is not a number lies outside.
-/
import RunCompare.Stats.Quantile

namespace RunCompare.Stats

variable {α : Type} [Scalar α]

open Scalar

/-- The bounds outside of which a sample is an outlier. -/
inductive Fences (α : Type) where
  /-- No number lies outside. -/
  | unbounded
  /-- The bounds themselves lie inside. -/
  | between (lower upper : α)

/-- Whether a value lies inside the fences. -/
def Fences.holds (fences : Fences α) (x : α) : Bool :=
  match fences with
  | .unbounded => decide (x ≤ x)
  | .between lower upper => decide (lower ≤ x) && decide (x ≤ upper)

/-- The outliers of a series, by position, and the quartiles that tell them. -/
structure Outliers (α : Type) where
  positions : List Nat
  fences : Fences α
  q1 : α
  q3 : α
  iqr : α

/-- Series with fewer samples have no outliers. -/
def leastSamplesWithOutliers : Nat := 4

/-- The distance of the fences from the quartiles, in interquartile ranges. -/
def fenceDistance : α := ((3 : Nat) : α) / ((2 : Nat) : α)

/-- The fences around a pair of quartiles. -/
def Fences.around (q1 q3 : α) : Fences α :=
  .between (q1 - fenceDistance * (q3 - q1)) (q3 + fenceDistance * (q3 - q1))

namespace Outliers

/-- The positions of the samples that lie outside the fences. -/
def positionsOutside (fences : Fences α) (xs : List α) : List Nat :=
  (xs.zipIdx.filter fun e => !fences.holds e.1).map (·.2)

/-- The outliers of a series; absent if the series is empty.  In a short series the quartiles
are reported as the least and the greatest sample. -/
def detect (xs : List α) : Option (Outliers α) :=
  let ordered := sorted xs
  if xs.length < leastSamplesWithOutliers then do
    let least ← ordered.head?
    let greatest ← ordered.getLast?
    return ⟨[], .unbounded, least, greatest, zero⟩
  else do
    let q1 ← lowerQuartile ordered
    let q3 ← upperQuartile ordered
    let fences := Fences.around q1 q3
    return ⟨positionsOutside fences xs, fences, q1, q3, q3 - q1⟩

/-- Whether there is an outlier. -/
def any (o : Outliers α) : Bool := !o.positions.isEmpty

/-- A series without the samples at the positions of the outliers. -/
def removeFrom (o : Outliers α) (xs : List α) : List α :=
  (xs.zipIdx.filter fun e => !o.positions.contains e.2).map (·.1)

end Outliers

/-- A series without its outliers, in its own order. -/
def withoutOutliers (xs : List α) : List α :=
  match Outliers.detect xs with
  | some o => if o.any then o.removeFrom xs else xs
  | none => xs

end RunCompare.Stats
