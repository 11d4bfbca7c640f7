/-
The standard catalogs exist, and what their metrics are.

A catalog is built one definition at a time, and any definition may be refused.
None of the standard ones is: every path is well formed and names a field that
records have (`aggregationCatalog_eq`, `comparisonCatalog_eq`).
-/
import RunCompare.Metric.Standard
import Mathlib.Data.List.Forall2

namespace RunCompare

variable {τ α : Type}

/-! ### Catalogs of definitions -/

theorem Catalog.put_of_not_mem {m : Metric τ α} {l : List (Metric τ α)}
    (h : m.name ∉ l.map (·.name)) : Catalog.put m l = l ++ [m] := by
  induction l with
  | nil => rfl
  | cons m' rest ih =>
      simp only [List.map_cons, List.mem_cons, not_or] at h
      rw [Catalog.put, if_neg (Ne.symm h.1), ih h.2, List.cons_append]

variable [Measured τ α]

theorem MetricDefinition.field_eq_ok {name path : String} {p : FieldPath}
    (hpath : FieldPath.ofText? path = some p) (hfield : Measured.hasField τ p = true) :
    (MetricDefinition.field name path : MetricDefinition τ α).metric =
      .ok ⟨name, .field p⟩ := by
  show Metric.field name path = _
  unfold Metric.field
  rw [hpath]
  exact if_pos hfield

/-- Definitions that are all accepted and have different names make a catalog of their metrics. -/
theorem Catalog.ofDefinitions_eq_ok {ds : List (MetricDefinition τ α)} {ms : List (Metric τ α)}
    (hmetric : List.Forall₂ (fun d m => d.metric = .ok m) ds ms)
    (hdistinct : (ms.map (·.name)).Nodup) : Catalog.ofDefinitions ds = .ok ⟨ms, hdistinct⟩ := by
  have run : ∀ c : Catalog τ α, (hd : ((c.metrics ++ ms).map (·.name)).Nodup) →
      ds.foldlM Catalog.define c = .ok ⟨c.metrics ++ ms, hd⟩ := by
    clear hdistinct
    induction hmetric with
    | nil =>
        intro c hd
        obtain ⟨l, hl⟩ := c
        simp [List.foldlM_nil]
        rfl
    | @cons d m ds ms hm _ ih =>
        intro c hd
        have hnew : m.name ∉ c.metrics.map (·.name) := by
          rw [List.map_append, List.nodup_append] at hd
          exact fun hmem => hd.2.2 _ hmem _ (by simp) rfl
        have hput : (c.insert m).metrics = c.metrics ++ [m] := Catalog.put_of_not_mem hnew
        have happend : (c.insert m).metrics ++ ms = c.metrics ++ m :: ms := by
          rw [hput, List.append_assoc, List.singleton_append]
        have hstep : c.define d = .ok (c.insert m) := by
          unfold Catalog.define
          rw [hm]
          rfl
        rw [List.foldlM_cons, hstep]
        show ds.foldlM Catalog.define (c.insert m) = _
        rw [ih (c.insert m) (by rw [happend]; exact hd)]
        simp only [happend]
  exact run Catalog.empty hdistinct

/-! ### The standard ones -/

section

variable {α : Type} [Scalar α]

/-- The metrics of which every group of runs has statistics. -/
def aggregationMetrics : List (Metric (Run α) α) :=
  [⟨"duration_wo_similarity", .computed Run.durationWithoutSimilarity?⟩,
    ⟨"duration", .computed fun r => some r.durationMs⟩,
    ⟨"l_duration", .field ⟨["diff_summary", "leaves", "total_time"]⟩⟩,
    ⟨"bu_duration", .field ⟨["diff_summary", "bottomup", "total_time"]⟩⟩,
    ⟨"l_no_comp", .field ⟨["diff_summary", "leaves", "total_comparisons"]⟩⟩,
    ⟨"l_sim_ms", .field ⟨["diff_summary", "leaves", "similarity_time"]⟩⟩,
    ⟨"l_no_chars_comp", .field ⟨["diff_summary", "leaves", "characters_compared"]⟩⟩,
    ⟨"l_exact_matches", .field ⟨["diff_summary", "leaves", "exact_matches"]⟩⟩]

/-- The metrics that are compared between two configurations. -/
def comparisonMetrics : List (Metric (RunGroup α) α) :=
  [⟨"duration", .field ⟨["duration_mean"]⟩⟩,
    ⟨"duration_wo_similarity", .field ⟨["duration_wo_similarity_mean"]⟩⟩,
    ⟨"number_similarity_checks", .field ⟨["diff_summary", "leaves", "similarity_checks"]⟩⟩,
    ⟨"leaves_similarity_time", .field ⟨["diff_summary", "leaves", "similarity_time"]⟩⟩,
    ⟨"bottomup_similarity_time", .field ⟨["diff_summary", "bottomup", "similarity_time"]⟩⟩,
    ⟨"leaves_similarity_ratio",
      .computed fun g => g.perDuration? g.breakdown.leaves.similarityTime⟩,
    ⟨"bottomup_similarity_ratio",
      .computed fun g => g.perDuration? g.breakdown.bottomUp.similarityTime⟩,
    ⟨"overhead_ratio", .computed RunGroup.overheadRatio?⟩]

theorem aggregationMetrics_distinct :
    ((aggregationMetrics : List (Metric (Run α) α)).map (·.name)).Nodup := by
  simp only [aggregationMetrics, List.map_cons, List.map_nil]
  decide

theorem comparisonMetrics_distinct :
    ((comparisonMetrics : List (Metric (RunGroup α) α)).map (·.name)).Nodup := by
  simp only [comparisonMetrics, List.map_cons, List.map_nil]
  decide

/-- **The catalog of the metrics that are aggregated exists.** -/
theorem aggregationCatalog_eq : (aggregationCatalog : Except AnalysisError (Catalog (Run α) α)) =
    .ok ⟨aggregationMetrics, aggregationMetrics_distinct⟩ := by
  refine Catalog.ofDefinitions_eq_ok ?_ aggregationMetrics_distinct
  unfold aggregationDefinitions aggregationMetrics
  refine .cons rfl (.cons rfl (.cons ?_ (.cons ?_ (.cons ?_ (.cons ?_ (.cons ?_ (.cons ?_ .nil)))))))
  all_goals
    refine MetricDefinition.field_eq_ok ?_ ?_
    · decide
    · show commonFields.contains _ = true
      decide

/-- **The catalog of the metrics that are compared exists.** -/
theorem comparisonCatalog_eq :
    (comparisonCatalog : Except AnalysisError (Catalog (RunGroup α) α)) =
      .ok ⟨comparisonMetrics, comparisonMetrics_distinct⟩ := by
  refine Catalog.ofDefinitions_eq_ok ?_ comparisonMetrics_distinct
  unfold comparisonDefinitions comparisonMetrics
  refine .cons ?_ (.cons ?_ (.cons ?_ (.cons ?_ (.cons ?_ (.cons rfl (.cons rfl (.cons rfl .nil)))))))
  all_goals
    refine MetricDefinition.field_eq_ok ?_ ?_
    · decide
    · show RunGroup.hasField _ = true
      decide

end

end RunCompare
