/-
Metrics: named numbers that a record may have.

A metric reads a numeric field by its path or computes its value.  Whether a
record type has a numeric field at a path is decided once, when the metric is
built; whether one record has a value there is decided when it is read.
-/
import RunCompare.Error
import RunCompare.Scalar

namespace RunCompare

/-- Records with numeric fields. -/
class Measured (τ : Type) (α : outParam Type) where
  /-- The value of the field at a path, if this record has one. -/
  fieldValue : τ → FieldPath → Option α
  /-- Whether records of this type have a numeric field at a path. -/
  hasField : FieldPath → Bool

/-- Where the values of a metric come from. -/
inductive MetricSource (τ α : Type) where
  | field (path : FieldPath)
  | computed (value? : τ → Option α)

/-- A named number that a record may have. -/
structure Metric (τ α : Type) where
  name : String
  source : MetricSource τ α

namespace Metric

variable {τ α : Type} [Measured τ α]

/-- The metric that reads the field at a path. -/
def field (name path : String) : Except AnalysisError (Metric τ α) :=
  match FieldPath.ofText? path with
  | none => .error .emptyPath
  | some p =>
    if Measured.hasField τ p then .ok ⟨name, .field p⟩ else .error (.unknownField p)

/-- The metric that computes its values. -/
def computed (name : String) (value? : τ → Option α) : Metric τ α := ⟨name, .computed value?⟩

variable [Scalar α]

/-- The value of one record; one that is not finite counts as absent. -/
def value? (m : Metric τ α) (record : τ) : Option α :=
  (match m.source with
    | .field path => Measured.fieldValue record path
    | .computed value? => value? record).filter Scalar.isFinite

/-- The values of those records that have one. -/
def values (m : Metric τ α) (records : List τ) : List α := records.filterMap m.value?

end Metric

end RunCompare
