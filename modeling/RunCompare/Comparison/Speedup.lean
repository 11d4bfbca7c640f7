/-
Signed speedups.

A ratio below one is replaced by minus its reciprocal, so that twice as fast and
twice as slow have one magnitude and the sign tells the direction.
-/
import RunCompare.Stats.Summary

namespace RunCompare

variable {α : Type} [Scalar α]

open Scalar Stats

/-- `base / variant` if it is at least one, else minus its reciprocal; absent unless both are
finite and above zero. -/
def signedRatio (base variant : α) : Option α :=
  if !(isFinite base && isFinite variant) || base ≤ zero || variant ≤ zero then none
  else
    let ratio := base / variant
    some (if ratio < one then -one / ratio else ratio)

/-- The speedup of the variant on one file, with the identity of the variant's group. -/
structure SpeedupPoint (α : Type) where
  file : String
  config : String
  loc : UInt64
  nodeCount : UInt64
  speedup : α

/-- A summary of speedups, and how often each side was the faster one. -/
structure SpeedupStats (α : Type) where
  summary : Summary α
  firstBetter : Nat
  secondBetter : Nat
  /-- The number of paired files without a speedup. -/
  undefined : Nat

namespace SpeedupStats

/-- Summarizes speedups; a positive one counts for the variant and a negative one for the
baseline. -/
def ofSpeedups (speedups : List α) (baselineFirst : Bool) (undefined : Nat) : SpeedupStats α :=
  let variantFaster := speedups.countP fun s => decide (zero < s)
  let baselineFaster := speedups.countP fun s => decide (s < zero)
  { summary := Summary.ofSamples speedups
    firstBetter := if baselineFirst then baselineFaster else variantFaster
    secondBetter := if baselineFirst then variantFaster else baselineFaster
    undefined }

/-- The summary of no speedups. -/
def empty : SpeedupStats α := ofSpeedups [] true 0

/-- A number of files as a share of all files with a speedup. -/
def share (s : SpeedupStats α) (n : Nat) : Option α :=
  if s.summary.count = 0 then none else some (((n : Nat) : α) / ((s.summary.count : Nat) : α))

end SpeedupStats

/-- The signed ratios of pairs of counts, and the number of pairs without one. -/
structure ReductionStats (α : Type) where
  summary : Summary α
  undefined : Nat

namespace ReductionStats

/-- Summarizes the signed ratios of pairs. -/
def ofPairs (pairs : List (α × α)) : ReductionStats α where
  summary := Summary.ofSamples (pairs.filterMap fun p => signedRatio p.1 p.2)
  undefined := pairs.countP fun p => (signedRatio p.1 p.2).isNone

/-- The summary of no pairs. -/
def empty : ReductionStats α := ofPairs []

end ReductionStats

end RunCompare
