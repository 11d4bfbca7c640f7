/-
The rank test for two independent samples.

The samples are pooled and ranked, ties sharing the mean of their ranks.  `u`
counts the pairs in which the sample with the smaller count wins, ties as half a
pair; its distance from the mean is judged by the normal distribution, with
corrections neither for ties nor for continuity.  The approximation is weak for
samples smaller than about ten.  Of the samples only the order counts, so they
may be of another type of numbers than the outcome.
-/
import RunCompare.Scalar

namespace RunCompare.Stats

variable {α β : Type} [Scalar α] [Scalar β]

open Scalar

/-- The outcome of a two-sided rank test. -/
structure RankTest (α : Type) where
  /-- The smaller of the two counts of pairs won. -/
  u : α
  /-- The count in standard deviations from its mean, never above zero. -/
  z : α
  /-- The probability of a count at least as far from the mean. -/
  p : α

namespace RankTest

/-- The pooled samples in ascending order, each marked with whether it is of the first sample. -/
def pool (first second : List β) : List (β × Bool) :=
  (first.map (·, true) ++ second.map (·, false)).mergeSort fun a b => totalLe a.1 b.1

/-- The pooled samples cut into runs of equal values. -/
def tieRuns (pooled : List (β × Bool)) : List (List (β × Bool)) :=
  pooled.splitBy fun a b => a.1 == b.1

/-- The ranks of runs that follow `start` smaller samples: each member of a run has the mean of
the ranks that the run takes. -/
def rankRuns (start : Nat) : List (List (β × Bool)) → List (α × Bool)
  | [] => []
  | run :: rest =>
    let stop := start + run.length
    let rank := ((start + 1 + stop : Nat) : α) / ((2 : Nat) : α)
    run.map (fun e => (rank, e.2)) ++ rankRuns stop rest

/-- The rank of every pooled sample, counted from one. -/
def ranks (first second : List β) : List (α × Bool) := rankRuns 0 (tieRuns (pool first second))

/-- The sum of the ranks of the first sample. -/
def rankSum (first second : List β) : α :=
  sum (((ranks first second).filter (·.2)).map (·.1))

/-- The test for two non-empty samples; absent if one is empty. -/
def ofSamples (first second : List β) : Option (RankTest α) :=
  if first.isEmpty || second.isEmpty then none
  else
    let n₁ : α := (first.length : Nat)
    let n₂ : α := (second.length : Nat)
    let two : α := (2 : Nat)
    let u₁ := rankSum first second - n₁ * (n₁ + one) / two
    let u₂ := n₁ * n₂ - u₁
    let u := if u₂ < u₁ then u₂ else u₁
    let deviation := sqrt (n₁ * n₂ * (n₁ + n₂ + one) / ((12 : Nat) : α))
    let z := if zero < deviation then (u - n₁ * n₂ / two) / deviation else zero
    some { u, z, p := clamp zero one (two * (one - normalCdf (abs z))) }

/-- Whether the difference is significant at a level. -/
def significantAt (level : α) (t : RankTest α) : Bool := decide (t.p < level)

end RankTest

end RunCompare.Stats
