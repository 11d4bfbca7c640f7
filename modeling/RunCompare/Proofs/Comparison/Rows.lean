/-
The rows of comparisons in a pivot table.

The comparison of a pair with groups on both sides and that of a pair without
are made in different ways but written alike.  Between two comparisons whose
maps have the names of one catalog (`NamedBy`) every leaf of the one has a leaf
at its path in the other, and the only exception is the outcome of a rank test:
an object with three leaves where there is one, and a single leaf, null, where
there is none (`toJson_covers`).
-/
import RunCompare.Proofs.Comparison.Pairing
import RunCompare.Proofs.Json.Shape
import RunCompare.Proofs.Pivot

namespace RunCompare

open Json Stats PivotTable

variable {α : Type} [Scalar α]

/-! ### Records of numbers -/

/-- The keys of a summary. -/
def summaryKeys : List String := ["count", "sum", "mean", "q1", "median", "q3"]

/-- The keys of the outcome of a rank test. -/
def testKeys : List String := ["u_stat", "z_score", "p_value"]

/-- The keys of a regression. -/
def regressionKeys : List String := ["n", "slope", "intercept", "ss_tot", "ss_res", "r_squared"]

/-- The keys of a summary of speedups. -/
def speedupKeys : List String :=
  summaryKeys ++ ["algo1_better", "algo2_better", "algo1_better_ratio", "algo2_better_ratio",
    "undefined"]

/-- The keys of the relations between the statistics of both sides. -/
def deltaKeys : List String :=
  ["sum_diff", "sum_ratio", "sum_pct_reduction", "median_diff", "median_ratio",
    "median_pct_reduction", "q1_diff", "q1_ratio", "q1_pct_reduction", "q3_diff", "q3_ratio",
    "q3_pct_reduction"]

theorem summary_atoms (s : Summary α) : AtomFields summaryKeys s.fields :=
  ⟨rfl, by simp [Summary.fields]⟩

theorem deltas_atoms (m : MetricComparison α) : AtomFields deltaKeys
    (m.sum.fields "sum" ++ m.median.fields "median" ++ m.q1.fields "q1" ++ m.q3.fields "q3") :=
  ⟨rfl, by simp [Delta.fields]⟩

theorem speedupStats_atoms (s : SpeedupStats α) : AtomFields speedupKeys
    (s.summary.fields
      ++ [("algo1_better", .nat s.firstBetter), ("algo2_better", .nat s.secondBetter),
        ("algo1_better_ratio", ofNumber? (s.share s.firstBetter)),
        ("algo2_better_ratio", ofNumber? (s.share s.secondBetter)),
        ("undefined", .nat s.undefined)]) :=
  ⟨rfl, by simp [Summary.fields]⟩

theorem regression_atoms (r : Regression α) : AtomFields regressionKeys
    [("n", .nat r.count), ("slope", ofNumber? (r.fit.map (·.slope))),
      ("intercept", ofNumber? (r.fit.map (·.intercept))),
      ("ss_tot", ofNumber? (r.fit.map (·.total))), ("ss_res", ofNumber? (r.fit.map (·.residual))),
      ("r_squared", ofNumber? (r.fit.bind (·.explained)))] :=
  ⟨rfl, by simp⟩

theorem reduction_atoms (r : ReductionStats α) :
    AtomFields (summaryKeys ++ ["undefined"]) (r.summary.fields ++ [("undefined", .nat r.undefined)]) :=
  ⟨rfl, by simp [Summary.fields]⟩

theorem shares_atoms (s : SimilarityShares α) : AtomFields ["leaves", "bottomup", "total"]
    [("leaves", ofNumber? s.leaves), ("bottomup", ofNumber? s.bottomUp),
      ("total", ofNumber? s.total)] :=
  ⟨rfl, by simp⟩

theorem overhead_atoms (s : Sides (Option α)) : AtomFields ["algo1", "algo2"]
    [("algo1", ofNumber? s.first), ("algo2", ofNumber? s.second)] :=
  ⟨rfl, by simp⟩

theorem test_atoms (t : RankTest α) : AtomFields testKeys
    [("u_stat", ofScalar t.u), ("z_score", ofScalar t.z), ("p_value", ofScalar t.p)] :=
  ⟨rfl, by simp⟩

/-! ### Comparisons of metrics -/

/-- The path of the outcome of a metric's rank test. -/
def testPath (metric : String) : List String :=
  ["algo_comparison", metric, "mann_whitney_u_result"]

namespace Comparison

/-- A comparison has the outcome of a rank test for a metric. -/
def Tested (c : Comparison α) (metric : String) : Prop :=
  ∃ m, c.metrics.get? metric = some m ∧ m.test.isSome = true

/-- The paths at which a comparison may lack a leaf that another one has: the outcome of a test
that it has made, and the parts of the outcome of a test that it has not made. -/
def Untabled (c : Comparison α) (path : List String) : Prop :=
  ∃ metric ∈ c.metrics.keys, path = testPath metric ∧ c.Tested metric ∨
    (∃ k ∈ testKeys, path = testPath metric ++ [k]) ∧ ¬ c.Tested metric

end Comparison

theorem test_covers {test test' : Option (RankTest α)} {except : List String → Prop}
    (hmade : test'.isSome = true → except [])
    (hnot : test' = none → ∀ k ∈ testKeys, except [k]) :
    Covers except (ofOption RankTest.toJson test) (ofOption RankTest.toJson test') := by
  cases test with
  | none =>
      cases test' with
      | none => exact Covers.refl _
      | some t' =>
          intro path hpath
          rw [(hasLeaf_atom isAtom_null).mp hpath]
          exact Or.inr (hmade rfl)
  | some t =>
      cases test' with
      | none =>
          intro path hpath
          obtain ⟨k, v, rest, rfl, hv, hrest⟩ := hasLeaf_ofMap.mp hpath
          have hmem := KeyMap.mem_of_get?_ofList hv
          have hkey : k ∈ testKeys := by
            rw [← (test_atoms t).keys]
            exact List.mem_map.mpr ⟨_, hmem, rfl⟩
          rw [(hasLeaf_atom ((test_atoms t).atoms _ hmem)).mp hrest]
          exact Or.inr (hnot rfl k hkey)
      | some t' => exact (test_atoms t).covers (test_atoms t') (by decide)

/-- The fields of the comparison of a metric. -/
def MetricComparison.fields (m : MetricComparison α) : List (String × Json α) :=
  m.sum.fields "sum" ++ m.median.fields "median" ++ m.q1.fields "q1" ++ m.q3.fields "q3"
    ++ [("mann_whitney_u_result", ofOption RankTest.toJson m.test),
      ("significant_005", .bool m.significant005), ("significant_001", .bool m.significant001)]

theorem MetricComparison.fields_distinct (m : MetricComparison α) :
    (m.fields.map (·.1)).Nodup := by
  show (deltaKeys ++ ["mann_whitney_u_result", "significant_005", "significant_001"]).Nodup
  decide

theorem metricComparison_covers {m m' : MetricComparison α} {except : List String → Prop}
    (hmade : m'.test.isSome = true → except ["mann_whitney_u_result"])
    (hnot : m'.test = none → ∀ k ∈ testKeys, except ["mann_whitney_u_result", k]) :
    Covers except m.toJson m'.toJson := by
  refine covers_object m.fields_distinct
    (List.rel_append ((deltas_atoms m).forall₂ (deltas_atoms m')) ?_)
  refine .cons ⟨rfl, test_covers hmade hnot⟩ (.cons ⟨rfl, ?_⟩ (.cons ⟨rfl, ?_⟩ .nil))
  · exact covers_atom (isAtom_bool _) (isAtom_bool _)
  · exact covers_atom (isAtom_bool _) (isAtom_bool _)

theorem metricComparison_tabular (m : MetricComparison α) : m.toJson.Tabular := by
  refine tabular_object ?_
  show ∀ e ∈ m.fields, _
  refine List.forall_mem_append.mpr ⟨fun e he => ⟨?_, ?_⟩, ?_⟩
  · have hkeys : ∀ k ∈ deltaKeys, '.' ∉ k.toList := by decide
    exact hkeys e.1 ((deltas_atoms m).keys ▸ List.mem_map.mpr ⟨e, he, rfl⟩)
  · exact Tabular.of_isAtom ((deltas_atoms m).atoms e he)
  · simp only [List.forall_mem_cons]
    refine ⟨⟨by decide, ?_⟩, ⟨by decide, ?_⟩, ⟨by decide, ?_⟩, nofun⟩
    · cases m.test with
      | none => exact Tabular.of_isAtom isAtom_null
      | some t => exact (test_atoms t).tabular (by decide)
    · exact Tabular.of_isAtom (isAtom_bool _)
    · exact Tabular.of_isAtom (isAtom_bool _)

/-! ### Whole comparisons -/

/-- The maps of a comparison have the names of the metrics of a catalog as keys. -/
structure NamedBy (catalog : Catalog (RunGroup α) α) (c : Comparison α) : Prop where
  first : ∀ k, k ∈ c.summaries.first.keys ↔ k ∈ catalog.names
  second : ∀ k, k ∈ c.summaries.second.keys ↔ k ∈ catalog.names
  metrics : ∀ k, k ∈ c.metrics.keys ↔ k ∈ catalog.names

/-- **Every comparison with a catalog has the names of its metrics as keys**, whether or not its
pair has groups on both sides. -/
theorem namedBy_compare (catalog : Catalog (RunGroup α) α) (groups : List (RunGroup α))
    (pair : ConfigPair) : NamedBy catalog (compare catalog groups pair) := by
  have hnames : ∀ {β : Type} (v : β) (k : String),
      k ∈ (KeyMap.ofList (catalog.names.map (·, v))).keys ↔ k ∈ catalog.names := by
    intro β v k
    rw [KeyMap.mem_keys, KeyMap.contains_ofList, List.map_map]
    exact iff_of_eq (congrArg (k ∈ ·) (List.map_id _))
  have hmetrics : ∀ {β : Type} (f : Metric (RunGroup α) α → β) (k : String),
      k ∈ (KeyMap.ofList (catalog.metrics.map fun m => (m.name, f m))).keys ↔
        k ∈ catalog.names := by
    intro β f k
    rw [KeyMap.mem_keys, KeyMap.contains_ofList, List.map_map]
    rfl
  rw [compare_eq]
  split
  · exact ⟨hnames _, hnames _, hnames _⟩
  · exact ⟨hmetrics _, hmetrics _, hmetrics _⟩

theorem summaries_covers {m m' : KeyMap (Summary α)} (hkeys : ∀ k ∈ m.keys, k ∈ m'.keys)
    {except : List String → Prop} :
    Covers except (ofMap (m.map Summary.toJson)) (ofMap (m'.map Summary.toJson)) := by
  refine covers_ofMap fun k v hv => ?_
  rw [KeyMap.get?_map, Option.map_eq_some_iff] at hv
  obtain ⟨s, hs, rfl⟩ := hv
  obtain ⟨s', hs'⟩ := KeyMap.mem_keys_iff.mp (hkeys k (KeyMap.mem_keys_iff.mpr ⟨s, hs⟩))
  refine ⟨s'.toJson, by rw [KeyMap.get?_map, hs']; rfl, ?_⟩
  exact (summary_atoms s).covers (summary_atoms s') (by decide)

theorem metrics_covers {c c' : Comparison α} (hkeys : ∀ k ∈ c.metrics.keys, k ∈ c'.metrics.keys) :
    Covers (fun rest => c'.Untabled ("algo_comparison" :: rest))
      (ofMap (c.metrics.map MetricComparison.toJson))
      (ofMap (c'.metrics.map MetricComparison.toJson)) := by
  refine covers_ofMap fun k v hv => ?_
  rw [KeyMap.get?_map, Option.map_eq_some_iff] at hv
  obtain ⟨m, hm, rfl⟩ := hv
  obtain ⟨m', hm'⟩ := KeyMap.mem_keys_iff.mp (hkeys k (KeyMap.mem_keys_iff.mpr ⟨m, hm⟩))
  refine ⟨m'.toJson, by rw [KeyMap.get?_map, hm']; rfl, metricComparison_covers ?_ ?_⟩
  · intro hmade
    exact ⟨k, KeyMap.mem_keys_iff.mpr ⟨m', hm'⟩, Or.inl ⟨rfl, m', hm', hmade⟩⟩
  · intro hnot field hfield
    refine ⟨k, KeyMap.mem_keys_iff.mpr ⟨m', hm'⟩, Or.inr ⟨⟨field, hfield, rfl⟩, ?_⟩⟩
    rintro ⟨m'', hm'', hmade⟩
    rw [hm'] at hm''
    cases hm''
    rw [hnot] at hmade
    cases hmade

theorem Comparison.fields_distinct (c : Comparison α) : (c.fields.map (·.1)).Nodup := by
  show ["names", "has_data", "data", "speedup_data", "algo1_stats", "algo2_stats",
    "algo_comparison", "speedup_stats", "regression_stats", "similarity_checks_reduction_ratio",
    "total_similarity_ratios", "total_overhead"].Nodup
  decide

/-- **Comparisons with one catalog have leaves at the same paths**, rank tests apart. -/
theorem toJson_covers {catalog : Catalog (RunGroup α) α} {c c' : Comparison α}
    (hc : NamedBy catalog c) (hc' : NamedBy catalog c') :
    Covers c'.Untabled c.toJson c'.toJson := by
  refine covers_object c.fields_distinct ?_
  · refine .cons ⟨rfl, ?_⟩ (.cons ⟨rfl, ?_⟩ (.cons ⟨rfl, ?_⟩ (.cons ⟨rfl, ?_⟩ (.cons ⟨rfl, ?_⟩
      (.cons ⟨rfl, ?_⟩ (.cons ⟨rfl, ?_⟩ (.cons ⟨rfl, ?_⟩ (.cons ⟨rfl, ?_⟩ (.cons ⟨rfl, ?_⟩
        (.cons ⟨rfl, ?_⟩ (.cons ⟨rfl, ?_⟩ .nil)))))))))))
    · exact covers_arr _ _
    · exact covers_atom (isAtom_bool _) (isAtom_bool _)
    · exact covers_arr _ _
    · exact covers_arr _ _
    · exact summaries_covers fun k hk => (hc'.first k).mpr ((hc.first k).mp hk)
    · exact summaries_covers fun k hk => (hc'.second k).mpr ((hc.second k).mp hk)
    · exact metrics_covers fun k hk => (hc'.metrics k).mpr ((hc.metrics k).mp hk)
    · exact (speedupStats_atoms _).covers (speedupStats_atoms _) (by decide)
    · exact (regression_atoms _).covers (regression_atoms _) (by decide)
    · exact (reduction_atoms _).covers (reduction_atoms _) (by decide)
    · refine covers_object (by simp) (.cons ⟨rfl, ?_⟩ (.cons ⟨rfl, ?_⟩ .nil))
      · exact (shares_atoms _).covers (shares_atoms _) (by decide)
      · exact (shares_atoms _).covers (shares_atoms _) (by decide)
    · exact (overhead_atoms _).covers (overhead_atoms _) (by decide)

/-- What a comparison has at the path of a test is its outcome. -/
theorem leafAt_testPath {c : Comparison α} {metric : String} {rest : List String} {leaf : Json α} :
    LeafAt c.toJson (testPath metric ++ rest) leaf ↔
      ∃ m, c.metrics.get? metric = some m ∧ LeafAt (ofOption RankTest.toJson m.test) rest leaf := by
  have hmetrics : ("algo_comparison", ofMap (c.metrics.map MetricComparison.toJson)) ∈ c.fields := by
    simp [Comparison.fields]
  have htest : ∀ m : MetricComparison α,
      ("mann_whitney_u_result", ofOption RankTest.toJson m.test) ∈ m.fields := by
    simp [MetricComparison.fields]
  refine (leafAt_object_cons c.fields_distinct hmetrics).trans ?_
  rw [leafAt_ofMap]
  constructor
  · rintro ⟨k, v, rest', hpath, hv, hleaf⟩
    cases hpath
    rw [KeyMap.get?_map, Option.map_eq_some_iff] at hv
    obtain ⟨m, hm, rfl⟩ := hv
    exact ⟨m, hm, (leafAt_object_cons m.fields_distinct (htest m)).mp hleaf⟩
  · rintro ⟨m, hm, hleaf⟩
    refine ⟨metric, m.toJson, _, rfl, by rw [KeyMap.get?_map, hm]; rfl, ?_⟩
    exact (leafAt_object_cons m.fields_distinct (htest m)).mpr hleaf

/-- A comparison has no leaf at a path at which it may lack one. -/
theorem Comparison.Untabled.not_hasLeaf {c : Comparison α} {path : List String}
    (h : c.Untabled path) : ¬ c.toJson.HasLeaf path := by
  rintro ⟨leaf, hleaf⟩
  obtain ⟨metric, -, ⟨rfl, m, hm, hmade⟩ | ⟨⟨k, -, rfl⟩, hnot⟩⟩ := h
  · -- The outcome of a test is an object, which is no leaf itself.
    rw [← List.append_nil (testPath metric)] at hleaf
    obtain ⟨m', hm', hleaf⟩ := leafAt_testPath.mp hleaf
    rw [hm] at hm'
    cases hm'
    obtain ⟨t, ht⟩ := Option.isSome_iff_exists.mp hmade
    rw [ht] at hleaf
    obtain ⟨_, _, _, hpath, -⟩ := leafAt_ofMap.mp hleaf
    cases hpath
  · obtain ⟨m, hm, hleaf⟩ := leafAt_testPath.mp hleaf
    cases htest : m.test with
    | none =>
        rw [htest] at hleaf
        cases hleaf
    | some t => exact hnot ⟨m, hm, by rw [htest]; rfl⟩

/-- **The leaves of a comparison are told apart by the texts of their paths** if no name of a
metric contains a point. -/
theorem toJson_tabular {catalog : Catalog (RunGroup α) α} {c : Comparison α}
    (hc : NamedBy catalog c) (undotted : ∀ name ∈ catalog.names, '.' ∉ name.toList) :
    c.toJson.Tabular := by
  have hsummaries : ∀ m : KeyMap (Summary α), (∀ k, k ∈ m.keys ↔ k ∈ catalog.names) →
      (ofMap (m.map Summary.toJson)).Tabular := by
    intro m hkeys
    refine tabular_ofMap fun k v hv => ?_
    rw [KeyMap.get?_map, Option.map_eq_some_iff] at hv
    obtain ⟨s, hs, rfl⟩ := hv
    refine ⟨undotted k ((hkeys k).mp (KeyMap.mem_keys_iff.mpr ⟨s, hs⟩)), ?_⟩
    exact (summary_atoms s).tabular (by decide)
  have hmetrics : (ofMap (c.metrics.map MetricComparison.toJson)).Tabular := by
    refine tabular_ofMap fun k v hv => ?_
    rw [KeyMap.get?_map, Option.map_eq_some_iff] at hv
    obtain ⟨m, hm, rfl⟩ := hv
    refine ⟨undotted k ((hc.metrics k).mp (KeyMap.mem_keys_iff.mpr ⟨m, hm⟩)), ?_⟩
    exact metricComparison_tabular m
  have hshares : (c.similarityShares.toJson SimilarityShares.toJson).Tabular := by
    refine tabular_object ?_
    simp only [List.forall_mem_cons]
    refine ⟨⟨by decide, ?_⟩, ⟨by decide, ?_⟩, nofun⟩
    · exact (shares_atoms _).tabular (by decide)
    · exact (shares_atoms _).tabular (by decide)
  refine tabular_object ?_
  simp only [Comparison.fields, List.forall_mem_cons]
  refine ⟨⟨by decide, ?_⟩, ⟨by decide, ?_⟩, ⟨by decide, ?_⟩, ⟨by decide, ?_⟩, ⟨by decide, ?_⟩,
    ⟨by decide, ?_⟩, ⟨by decide, ?_⟩, ⟨by decide, ?_⟩, ⟨by decide, ?_⟩, ⟨by decide, ?_⟩,
    ⟨by decide, ?_⟩, ⟨by decide, ?_⟩, nofun⟩
  · exact tabular_arr _
  · exact Tabular.of_isAtom (isAtom_bool _)
  · exact tabular_arr _
  · exact tabular_arr _
  · exact hsummaries _ hc.first
  · exact hsummaries _ hc.second
  · exact hmetrics
  · exact (speedupStats_atoms _).tabular (by decide)
  · exact (regression_atoms _).tabular (by decide)
  · exact (reduction_atoms _).tabular (by decide)
  · exact hshares
  · exact (overhead_atoms _).tabular (by decide)

/-! ### The table -/

/-- The cells that a comparison leaves empty, by the names of their rows: that of the outcome of a
test that it has made, and those of the parts of the outcome of a test that it has not made. -/
def LeavesEmpty (catalog : Catalog (RunGroup α) α) (c : Comparison α) (row : String) : Prop :=
  ∃ metric ∈ catalog.names, row = rowName (testPath metric) ∧ c.Tested metric ∨
    (∃ k ∈ testKeys, row = rowName (testPath metric ++ [k])) ∧ ¬ c.Tested metric

omit [Scalar α] in
/-- A path at which a comparison may lack a leaf is told by the name of its row. -/
theorem untabled_iff {catalog : Catalog (RunGroup α) α} {c : Comparison α}
    (hc : NamedBy catalog c) (undotted : ∀ name ∈ catalog.names, '.' ∉ name.toList)
    {path : List String} (hne : path ≠ []) (hpath : ∀ k ∈ path, '.' ∉ k.toList) :
    c.Untabled path ↔ LeavesEmpty catalog c (rowName path) := by
  have htold : ∀ metric ∈ catalog.names, ∀ rest : List String, (∀ k ∈ rest, '.' ∉ k.toList) →
      rowName path = rowName (testPath metric ++ rest) → path = testPath metric ++ rest := by
    intro metric hmetric rest hrest
    refine rowName_injective hne (List.cons_ne_nil _ _) hpath ?_
    refine List.forall_mem_append.mpr ⟨?_, hrest⟩
    simp only [testPath, List.forall_mem_cons]
    exact ⟨by decide, undotted metric hmetric, by decide, nofun⟩
  constructor
  · rintro ⟨metric, hmetric, ⟨rfl, hmade⟩ | ⟨⟨k, hk, rfl⟩, hmade⟩⟩
    · exact ⟨metric, (hc.metrics metric).mp hmetric, Or.inl ⟨rfl, hmade⟩⟩
    · exact ⟨metric, (hc.metrics metric).mp hmetric, Or.inr ⟨⟨k, hk, rfl⟩, hmade⟩⟩
  · rintro ⟨metric, hmetric, h⟩
    refine ⟨metric, (hc.metrics metric).mpr hmetric, ?_⟩
    rcases h with ⟨heq, hmade⟩ | ⟨⟨k, hk, heq⟩, hmade⟩
    · exact Or.inl ⟨htold metric hmetric [] nofun heq, hmade⟩
    · have hpart : ∀ k ∈ testKeys, '.' ∉ k.toList := by decide
      have hrest : ∀ k' ∈ [k], '.' ∉ k'.toList := List.forall_mem_singleton.mpr (hpart k hk)
      exact Or.inr ⟨⟨k, hk, htold metric hmetric [k] hrest heq⟩, hmade⟩

/--
**A cell of the table of comparisons is missing only at the outcome of a rank test.**

The row of the outcome itself has a leaf, null, for the comparisons without the test, and the rows
of its parts have one for those with it.  Every other row has a leaf in every column.
-/
theorem ofComparisons_missing_iff (catalog : Catalog (RunGroup α) α)
    (undotted : ∀ name ∈ catalog.names, '.' ∉ name.toList) (groups : List (RunGroup α))
    (pairs : List ConfigPair) :
    (∀ c ∈ compareAll catalog groups pairs, NamedBy catalog c) ∧
      ∀ row ∈ (ofComparisons (compareAll catalog groups pairs)).rows,
        row.cells.length = pairs.length ∧
        ∀ (j : Nat) (c : Comparison α), (compareAll catalog groups pairs)[j]? = some c →
          ∃ cell, row.cells[j]? = some cell ∧
            (cell = .missing ↔ LeavesEmpty catalog c row.name) := by
  set comparisons := compareAll catalog groups pairs with hcomparisons
  have hnamed : ∀ c ∈ comparisons, NamedBy catalog c := by
    intro c hc
    obtain ⟨pair, -, rfl⟩ := List.mem_map.mp hc
    exact namedBy_compare catalog groups pair
  have htabular : ∀ column ∈ comparisons.map fun c => (c.pair.label, c.toJson),
      column.2.Tabular := by
    intro column hcolumn
    obtain ⟨c, hc, rfl⟩ := List.mem_map.mp hcolumn
    exact toJson_tabular (hnamed c hc) undotted
  have htable := ofColumns_laysOut (fun column hc => (htabular column hc).distinct)
    fun column hc => (htabular column hc).undotted
  refine ⟨hnamed, fun row hrow => ⟨?_, fun j c hj => ?_⟩⟩
  · rw [htable.width row hrow, List.length_map, hcomparisons, compareAll, List.length_map]
  · obtain ⟨column, hcolumn, path, leaf', hreports, hname⟩ :=
      (htable.rows row.name).mp (List.mem_map.mpr ⟨row, hrow, rfl⟩)
    have hcell := htable.cells row hrow column hcolumn path leaf' hreports hname j
      (c.pair.label, c.toJson) (by rw [List.getElem?_map, hj]; rfl)
    obtain ⟨cell, hcell, -, hmissing⟩ := hcell
    obtain ⟨c', hc', rfl⟩ := List.mem_map.mp hcolumn
    have hc : NamedBy catalog c := hnamed c (List.mem_of_getElem? hj)
    have hpath := hreports.1.undotted (toJson_tabular (hnamed c' hc') undotted).undotted
    refine ⟨cell, hcell, hmissing.trans ?_⟩
    rw [← hname, ← untabled_iff hc undotted hreports.ne_nil hpath]
    constructor
    · intro hnot
      -- The column that has this row has a leaf there, so this one lacks it as an exception.
      rcases toJson_covers (hnamed c' hc') hc path ⟨leaf', hreports.1⟩ with ⟨leaf, hleaf⟩ | h
      · exact absurd ⟨hleaf, hreports.2⟩ (hnot leaf)
      · exact h
    · intro h leaf hleaf
      exact h.not_hasLeaf ⟨leaf, hleaf.1⟩

/-- A pair with groups on both sides, one with groups on one side, and one without any. -/
def sparsePairs : List ConfigPair :=
  [⟨"Fast", "Baseline"⟩, ⟨"Other", "Absent"⟩, ⟨"Absent", "Unknown"⟩]

theorem ofComparisons_sparsePairs :
    (∀ name ∈ (durationMeanCatalog (α := Binary64)).names, '.' ∉ name.toList) ∧
      (∀ c ∈ compareAll durationMeanCatalog mixedGroups sparsePairs,
        NamedBy durationMeanCatalog c) ∧
      ∀ row ∈ (ofComparisons (compareAll durationMeanCatalog mixedGroups sparsePairs)).rows,
        row.cells.length = 3 ∧
        ∀ (j : Nat) (c : Comparison Binary64),
          (compareAll durationMeanCatalog mixedGroups sparsePairs)[j]? = some c →
            ∃ cell, row.cells[j]? = some cell ∧
              (cell = .missing ↔ LeavesEmpty durationMeanCatalog c row.name) := by
  have undotted : ∀ name ∈ (durationMeanCatalog (α := Binary64)).names, '.' ∉ name.toList := by
    decide
  exact ⟨undotted, ofComparisons_missing_iff durationMeanCatalog undotted mixedGroups sparsePairs⟩

end RunCompare
