/-
What the metrics that are aggregated read off a run.

The report of a complete run is that of a breakdown, in which nothing can be missing.
Every metric therefore has a value of it, whether it reads a field by its path or
computes, and `Run.measures` lists these values without any metric.
-/
import RunCompare.Proofs.Aggregation
import RunCompare.Proofs.Exact
import RunCompare.Proofs.Metric.Standard

namespace RunCompare

variable {α : Type}

/-! ### Values of metrics -/

section

variable [Scalar α]

/-- What is measured of a run with these phases, by the names of the metrics. -/
def Run.measures (r : Run α) (b : Breakdown α) : List (String × α) :=
  [("duration_wo_similarity", r.durationMs - b.leaves.similarityTime),
    ("duration", r.durationMs),
    ("l_duration", b.leaves.totalTime),
    ("bu_duration", b.bottomUp.totalTime),
    ("l_no_comp", scalarOfCount b.leaves.totalComparisons),
    ("l_sim_ms", b.leaves.similarityTime),
    ("l_no_chars_comp", scalarOfCount b.leaves.charactersCompared),
    ("l_exact_matches", scalarOfCount b.leaves.exactMatches)]

/-- What the metric with a name measures of a run; absent if the run is not complete. -/
def Run.measure? (name : String) (r : Run α) : Option α :=
  match r.breakdown with
  | .ok b => (r.measures b).lookup name
  | .error _ => none

end

variable [OpenFunctions]

/-- **Every metric that is aggregated has a value of a complete run, the one measured.** -/
theorem Run.value?_of_complete {r : Run ℚ} (h : r.Complete) :
    ∀ m ∈ aggregationMetrics, ∃ x, m.value? r = some x ∧ r.measure? m.name = some x := by
  obtain ⟨b, hb⟩ := h
  obtain ⟨file, config, testCase, nodeCount, loc, durationSecs, report, others⟩ := r
  cases Run.breakdown_eq_ok.mp hb
  simp only [aggregationMetrics, List.forall_mem_cons]
  exact ⟨⟨_, rfl, rfl⟩, ⟨_, rfl, rfl⟩, ⟨_, rfl, rfl⟩, ⟨_, rfl, rfl⟩, ⟨_, rfl, rfl⟩, ⟨_, rfl, rfl⟩,
    ⟨_, rfl, rfl⟩, ⟨_, rfl, rfl⟩, by simp⟩

end RunCompare
