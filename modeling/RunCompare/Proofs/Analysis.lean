/-
What can stop an analysis.

Only the data can: a run that lacks a part of its report.  The other errors
belong to definitions of metrics and to the serializer, and the standard
catalogs are well defined and no comparison is refused.  Nor does anything go
wrong on the way.  Where a position is read, the read is also written down as
one that can fail, and does not (`Indices/`); where a number is divided or a
root is taken, the operation is also written down as one that can be faulty, and
no fault reaches the report (`Faults/`).
-/
import RunCompare.Analysis
import RunCompare.Proofs.Aggregation.Outcome
import RunCompare.Proofs.Comparison.Serial
import RunCompare.Proofs.Faults.Analysis
import RunCompare.Proofs.Indices.Ranks
import RunCompare.Proofs.Indices.Slots
import RunCompare.Proofs.Indices.TieRuns
import RunCompare.Proofs.Metric.Standard

namespace RunCompare

open Stats

/-- Nothing but an incomplete run stops an analysis, and nothing goes wrong on the way. -/
structure AnalysisSafe (config : Config) (generatedAt : String) : Prop where
  /-- The standard catalogs are well defined. -/
  catalogs : ∀ {α : Type} [Scalar α],
    (∃ c, (aggregationCatalog : Except AnalysisError (Catalog (Run α) α)) = .ok c) ∧
      ∃ c, (comparisonCatalog : Except AnalysisError (Catalog (RunGroup α) α)) = .ok c
  /-- No comparison is refused by the serializer. -/
  pivot : ∀ {α : Type} [Scalar α] (comparisons : List (Comparison α)),
    PivotTable.build comparisons = .ok (PivotTable.ofComparisons comparisons)
  /-- The outcome is a report, with its pivot table, or tells a run and a part that it lacks. -/
  outcome : ∀ {α : Type} [Scalar α] (runs : List (Run α)),
    (∃ report, analyze config generatedAt runs = .ok report ∧
      PivotTable.build report.comparisons = .ok report.pivot) ∨
    ∃ r ∈ runs, ∃ missing, r.missing? = some missing ∧
      analyze config generatedAt runs =
        .error (.malformedGroup r.testCase r.config r.file missing)
  /-- Every slot that grouping looks up is there, and every group has a first item. -/
  slots : ∀ {κ τ : Type} [DecidableEq κ] (key : τ → κ) (items : List τ),
    Slots.groupBy key items = some ((groupBy key items).map fun g => (g.key, g.first :: g.rest))
  /-- The whole numbers next to the rank of a quartile are positions of samples; as long as a
  machine can count them, the rank is a number and is not below zero. -/
  ranks : ∀ {n p : Nat}, 2 ≤ n → p ∈ quartiles →
    Scalar.floorNat (percentileRank n (p : Binary64)) < n ∧
      Scalar.ceilNat (percentileRank n (p : Binary64)) < n ∧
      (n < 2 ^ 64 → (percentileRank n (p : Binary64)).isFinite = true ∧
        (percentileRank n (p : Binary64)).isNegative = false)
  /-- Every series but the empty one has quartiles. -/
  quartile : ∀ {xs : List Binary64} {p : Nat}, xs ≠ [] → p ∈ quartiles →
    (percentileOfSorted xs (p : Binary64)).isSome = true
  /-- Every series but the empty one has a least and a greatest sample, and fences. -/
  fences : ∀ {xs : List Binary64}, xs ≠ [] → (Outliers.detect xs).isSome = true
  /-- Every sample and every run that ranking reads lies within the pooled samples. -/
  tieRuns : ∀ first second : List Binary64,
    RankTest.rankedFrom (RankTest.pool first second) 0 =
      some (RankTest.ranks first second : List (Binary64 × Bool))
  /-- In exact arithmetic, the outcome is the same whatever a division by zero and the root of a
  negative number give: there is none. -/
  arithmetic : ∀ (choices : PartialRat.Choices) (faults faults' : PartialRat.Faults)
    (runs : List (Run PartialRat)),
    @analyze _ (PartialRat.scalar choices faults) config generatedAt runs =
      @analyze _ (PartialRat.scalar choices faults') config generatedAt runs

variable {α : Type} [Scalar α]

/-- The outcome of an analysis is that of the aggregation. -/
theorem analyze_outcome (config : Config) (generatedAt : String) (runs : List (Run α)) :
    (∃ report, analyze config generatedAt runs = .ok report ∧
      PivotTable.build report.comparisons = .ok report.pivot) ∨
    ∃ r ∈ runs, ∃ missing, r.missing? = some missing ∧
      analyze config generatedAt runs =
        .error (.malformedGroup r.testCase r.config r.file missing) := by
  unfold analyze
  rw [aggregationCatalog_eq, comparisonCatalog_eq]
  show (∃ report, (aggregate _ runs >>= _) = .ok report ∧ _) ∨
    ∃ r ∈ runs, ∃ missing, _ ∧ (aggregate _ runs >>= _) = _
  cases h : aggregate ⟨aggregationMetrics, aggregationMetrics_distinct⟩ runs with
  | ok groups => exact Or.inl ⟨_, rfl, PivotTable.build_eq _⟩
  | error e =>
      obtain ⟨i, r, hfirst, hr⟩ := exists_firstLacking_of_error h
      obtain ⟨missing, hmissing, rfl⟩ := Run.validate_eq_error_iff.mp hr
      exact Or.inr ⟨r, List.mem_of_getElem? hfirst.place, missing, hmissing, rfl⟩

/-- **An analysis gives a report, or tells an incomplete run.** -/
theorem analyze_safe (config : Config) (generatedAt : String) :
    AnalysisSafe config generatedAt where
  catalogs := ⟨⟨_, aggregationCatalog_eq⟩, ⟨_, comparisonCatalog_eq⟩⟩
  pivot := PivotTable.build_eq
  outcome := analyze_outcome config generatedAt
  slots := Slots.groupBy_eq
  ranks hn hp := by
    obtain ⟨hlower, hupper⟩ := percentileRank_lt hn hp
    exact ⟨hlower, hupper, fun hlt => percentileRank_isFinite hn hlt hp⟩
  quartile hxs hp := percentileOfSorted_isSome hp hxs
  fences := Outliers.detect_isSome
  tieRuns := RankTest.rankedFrom_pool
  arithmetic choices faults faults' runs := by
    rw [PartialRat.analyze_eq (o := faults')]

end RunCompare
