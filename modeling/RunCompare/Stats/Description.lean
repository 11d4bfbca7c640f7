/-
The five descriptive statistics of a group of measurements.

Outliers are dropped first.  The band from `meanLower` to `meanUpper` is one
standard deviation wide on each side of the mean.  A statistic of a metric is
addressed by one text, the name of the metric and the suffix of the statistic
joined by an underscore.
-/
import RunCompare.Stats.Moments
import RunCompare.Stats.Outlier

namespace RunCompare.Stats

variable {α : Type} [Scalar α]

open Scalar

/-- The statistics reported for every metric of a group. -/
inductive Statistic where
  | mean
  | median
  | sd
  | meanUpper
  | meanLower
deriving DecidableEq, Repr

namespace Statistic

/-- All statistics, in the order in which they are reported. -/
def all : List Statistic := [.mean, .median, .sd, .meanUpper, .meanLower]

/-- The suffix of a statistic in the name of its field. -/
def suffix : Statistic → String
  | mean => "mean"
  | median => "median"
  | sd => "sd"
  | meanUpper => "mean_upper"
  | meanLower => "mean_lower"

end Statistic

/-- The name of the field that holds a statistic of a metric. -/
def statisticKey (metric suffix : String) : String := metric ++ "_" ++ suffix

/-- Mean, median, standard deviation and the band around the mean. -/
structure Description (α : Type) where
  mean : α
  median : α
  sd : α
  meanUpper : α
  meanLower : α

namespace Description

/-- Describes what is left of a series without its outliers; absent for an empty series. -/
def ofSamples (xs : List α) : Option (Description α) := do
  let kept := withoutOutliers xs
  let mean ← Stats.mean kept
  let median ← Stats.median (sorted kept)
  let sd ← stdDev kept
  return { mean, median, sd, meanUpper := mean + sd, meanLower := mean - sd }

/-- The value of one statistic. -/
def get (d : Description α) : Statistic → α
  | .mean => d.mean
  | .median => d.median
  | .sd => d.sd
  | .meanUpper => d.meanUpper
  | .meanLower => d.meanLower

end Description

/-- The fields of a metric: one for every statistic, without a value if nothing was described. -/
def statisticFields (metric : String) (description : Option (Description α)) :
    List (String × Option α) :=
  Statistic.all.map fun s => (statisticKey metric s.suffix, description.map (·.get s))

end RunCompare.Stats
