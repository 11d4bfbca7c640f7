/-
The comparison of one metric between the two sides of a pair.
-/
import RunCompare.Stats.Summary
import RunCompare.Stats.RankTest

namespace RunCompare

variable {α : Type} [Scalar α]

open Scalar Stats

/-- How a statistic of the first side relates to that of the second. -/
structure Delta (α : Type) where
  /-- First minus second. -/
  difference : Option α
  /-- First over second; absent if the second is zero. -/
  ratio : Option α
  /-- The difference in percent of the first; absent if the first is zero. -/
  reduction : Option α

namespace Delta

/-- The relation to an absent statistic. -/
def none : Delta α := ⟨.none, .none, .none⟩

/-- The relation of two numbers. -/
def ofNumbers (a b : α) : Delta α where
  difference := some (a - b)
  ratio := if b == zero then .none else some (a / b)
  reduction := if a == zero then .none else some ((a - b) / a * ((100 : Nat) : α))

/-- The relation of two statistics that may be absent. -/
def between : Option α → Option α → Delta α
  | some a, some b => ofNumbers a b
  | _, _ => none

end Delta

/-- The comparison of one metric between the two sides of a pair. -/
structure MetricComparison (α : Type) where
  sum : Delta α
  median : Delta α
  q1 : Delta α
  q3 : Delta α
  test : Option (RankTest α)
  /-- Whether the difference is significant at one in twenty. -/
  significant005 : Bool
  /-- Whether the difference is significant at one in a hundred. -/
  significant001 : Bool

namespace MetricComparison

/-- The comparison of a metric that one side has no values of. -/
def empty : MetricComparison α :=
  ⟨Delta.none, Delta.none, Delta.none, Delta.none, none, false, false⟩

/-- The weaker level of significance. -/
def weakLevel : α := ((1 : Nat) : α) / ((20 : Nat) : α)

/-- The stronger level of significance. -/
def strongLevel : α := ((1 : Nat) : α) / ((100 : Nat) : α)

/-- Compares the summaries and the values of both sides. -/
def between (first second : Summary α) (firstValues secondValues : List α) :
    MetricComparison α :=
  if first.isEmpty || second.isEmpty then empty
  else
    let test := RankTest.ofSamples firstValues secondValues
    { sum := Delta.between (some first.sum) (some second.sum)
      median := Delta.between first.median second.median
      q1 := Delta.between first.q1 second.q1
      q3 := Delta.between first.q3 second.q3
      test
      significant005 := test.any (·.significantAt weakLevel)
      significant001 := test.any (·.significantAt strongLevel) }

end MetricComparison

end RunCompare
