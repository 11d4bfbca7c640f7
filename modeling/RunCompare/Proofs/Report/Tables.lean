/-
The tables of one text report agree.

Both text reports print the figures of a comparison in two places: in the part
on the comparison, from the numbers, and in its column of the pivot table, from
the leaves of its JSON value.  `TablesAgree` says that the part on the
comparison is a form, filled in with the texts of the column.

An absent number and one that is not finite are both null as leaves, and a dash
as texts.  The p-value of a rank test that was not made is no leaf at all: if
another comparison has made the test, its cell is missing, and else the table
has no row for it.  Both are a dash on the console.
-/
import RunCompare.Proofs.Report.Json
import RunCompare.Report.Console
import RunCompare.Report.Markdown

namespace RunCompare

open Json PivotTable Report

/-! ### Forms to fill in -/

/-- The text of a column in the row with a name; a dash if there is no such row. -/
def PivotTable.textAt (t : PivotTable Binary64) (column : Nat) (name : String) : String :=
  match (t.row? name).bind (·.cells[column]?) with
  | some cell => cellText cell
  | none => missingMark

/-- Both text reports have the row with a name in their pivot tables, and a text in its column. -/
def Report.Prints (r : Report Binary64) (name : String) (column : Nat) (text : String) : Prop :=
  ∃ row, r.pivot.row? name = some row ∧ (row.cells.map cellText)[column]? = some text ∧
    Markdown.rowLine (("\x60" ++ name ++ "\x60") :: row.cells.map cellText) ∈
      Markdown.pivotLines r.pivot ∧
    ∃ width, Console.pivotLine width name (row.cells.map cellText) ∈ Console.pivotLines r.pivot

/-- The table of a comparison, with the texts of its figures left open. -/
def Report.Markdown.form (pair : ConfigPair) (text : String → String) : List String :=
  [rowLine ["Statistic", escape pair.first ++ " vs. " ++ escape pair.second], ruleLine 1,
    rowLine ["Mean", text "speedup_stats.mean"], rowLine ["Median", text "speedup_stats.median"],
    rowLine ["Q1", text "speedup_stats.q1"], rowLine ["Q3", text "speedup_stats.q3"],
    rowLine ["Slope", text "regression_stats.slope"],
    rowLine ["Intercept", text "regression_stats.intercept"],
    rowLine ["R²", text "regression_stats.r_squared"], ""]

/-- The name of the row of the p-value on the durations. -/
def pValueName : String := "algo_comparison.duration.mann_whitney_u_result.p_value"

/-- The part on a comparison with data, with the texts of its figures left open; its counts and
the mark behind the p-value are given. -/
def Report.Console.form (pair : ConfigPair) (counts : SpeedupStats Binary64) (mark : String)
    (text : String → String) : List String :=
  heading ("Comparison: " ++ pair.label) ++
    ["  Paired files: " ++ toString counts.summary.count ++ " (" ++ toString counts.undefined
        ++ " undefined speedups)", "",
      "  ┌──────────┬──────────┬──────────┬──────────┬──────────┐",
      "  │ Speedup  │   Mean   │    Q1    │  Median  │    Q3    │",
      "  ├──────────┼──────────┼──────────┼──────────┼──────────┤",
      "  │ " ++ " │ ".intercalate
          [padLeft 8 "", padLeft 8 (text "speedup_stats.mean"), padLeft 8 (text "speedup_stats.q1"),
            padLeft 8 (text "speedup_stats.median"), padLeft 8 (text "speedup_stats.q3")] ++ " │",
      "  └──────────┴──────────┴──────────┴──────────┴──────────┘", "",
      "  Faster: "
        ++ (pair.first ++ " on " ++ toString counts.firstBetter ++ " files ("
          ++ text "speedup_stats.algo1_better_ratio" ++ ")")
        ++ ", "
        ++ (pair.second ++ " on " ++ toString counts.secondBetter ++ " files ("
          ++ text "speedup_stats.algo2_better_ratio" ++ ")"),
      "  Speedup vs LOC: slope " ++ text "regression_stats.slope"
        ++ ", intercept " ++ text "regression_stats.intercept"
        ++ ", R² " ++ text "regression_stats.r_squared",
      "  Duration Mann-Whitney p-value: " ++ text pValueName ++ mark, ""]

/-- The rows of the figures that every comparison has. -/
def figureNames : List String :=
  ["speedup_stats.mean", "speedup_stats.median", "speedup_stats.q1", "speedup_stats.q3",
    "speedup_stats.algo1_better_ratio", "speedup_stats.algo2_better_ratio",
    "regression_stats.slope", "regression_stats.intercept", "regression_stats.r_squared"]

/-- A comparison of a report is printed with the texts of its column in the pivot table. -/
structure TablesAgree (r : Report Binary64) (column : Nat) (c : Comparison Binary64) : Prop where
  /-- Both pivot tables have a row for each figure. -/
  figures : ∀ name ∈ figureNames, r.Prints name column (r.pivot.textAt column name)
  /-- Both have one for the p-value if the table has it at all. -/
  pValue : (r.pivot.row? pValueName).isSome = true →
    r.Prints pValueName column (r.pivot.textAt column pValueName)
  /-- The Markdown table is filled in from the column. -/
  markdown : Markdown.comparisonLines c = Markdown.form c.pair (r.pivot.textAt column)
  /-- So is the part on the console, if there are data; the metric of the p-value is there. -/
  console : c.hasData = true → ∃ duration, c.metrics.get? "duration" = some duration ∧
    Console.comparisonLines c =
      Console.form c.pair c.speedupStats (Console.significanceMark duration)
        (r.pivot.textAt column)

/-! ### The leaves of the figures -/

section

variable {α : Type} [Scalar α]

/-- The figures of a comparison, by the names of their rows. -/
def Comparison.figures (c : Comparison α) : List (String × Option α) :=
  [("speedup_stats.mean", c.speedupStats.summary.mean),
    ("speedup_stats.median", c.speedupStats.summary.median),
    ("speedup_stats.q1", c.speedupStats.summary.q1),
    ("speedup_stats.q3", c.speedupStats.summary.q3),
    ("speedup_stats.algo1_better_ratio", c.speedupStats.share c.speedupStats.firstBetter),
    ("speedup_stats.algo2_better_ratio", c.speedupStats.share c.speedupStats.secondBetter),
    ("regression_stats.slope", c.regression.fit.map (·.slope)),
    ("regression_stats.intercept", c.regression.fit.map (·.intercept)),
    ("regression_stats.r_squared", c.regression.fit.bind (·.explained))]

/-- An atom in a record of a comparison is a leaf of its column. -/
theorem Comparison.get?_flatten_record {c : Comparison α} (hc : c.toJson.Tabular) {part : String}
    {keys : List String} {fields : List (String × Json α)} (hfields : AtomFields keys fields)
    (hdistinct : keys.Nodup) (hpart : (part, object fields) ∈ c.fields)
    (hreported : part ∉ excludedKeys) {k : String} {v : Json α} (hmem : (k, v) ∈ fields) :
    (flatten c.toJson).get? (rowName [part, k]) = some v := by
  obtain ⟨notObject, notArray⟩ := hfields.atoms _ hmem
  have hleaf : LeafAt c.toJson [part, k] v :=
    (leafAt_object_cons c.fields_distinct hpart).mpr
      ((leafAt_object_cons (hfields.keys ▸ hdistinct) hmem).mpr (.here notObject notArray))
  exact (get?_flatten hc.distinct hc.undotted).mpr
    ⟨[part, k], ⟨hleaf, part, [k], rfl, hreported⟩, rfl⟩

/-- **The column of a comparison has each of its figures as a leaf**, absent or not. -/
theorem Comparison.get?_flatten_figures {c : Comparison α} (hc : c.toJson.Tabular) :
    ∀ e ∈ c.figures, (flatten c.toJson).get? e.1 = some (ofNumber? e.2) := by
  have hspeedup : ∀ k v, (k, v) ∈ _ → (flatten c.toJson).get? (rowName ["speedup_stats", k]) =
      some v := fun k v hmem =>
    c.get?_flatten_record hc (speedupStats_atoms c.speedupStats) (by decide)
      (by simp [Comparison.fields, SpeedupStats.toJson]) (by decide) hmem
  have hregression : ∀ k v, (k, v) ∈ _ →
      (flatten c.toJson).get? (rowName ["regression_stats", k]) = some v := fun k v hmem =>
    c.get?_flatten_record hc (regression_atoms c.regression) (by decide)
      (by simp [Comparison.fields, Stats.Regression.toJson]) (by decide) hmem
  simp only [figures, List.forall_mem_cons]
  refine ⟨hspeedup "mean" _ ?_, hspeedup "median" _ ?_, hspeedup "q1" _ ?_, hspeedup "q3" _ ?_,
    hspeedup "algo1_better_ratio" _ ?_, hspeedup "algo2_better_ratio" _ ?_,
    hregression "slope" _ ?_, hregression "intercept" _ ?_, hregression "r_squared" _ ?_,
    List.forall_mem_nil _⟩
  all_goals simp [Stats.Summary.fields]

theorem pValueName_eq : pValueName = rowName (testPath "duration" ++ ["p_value"]) := by decide

/-- **The p-value of a metric is a leaf exactly if the test was made.** -/
theorem Comparison.get?_flatten_pValue {c : Comparison α} (hc : c.toJson.Tabular) {metric : String}
    (hmetric : '.' ∉ metric.toList) {m : MetricComparison α}
    (hm : c.metrics.get? metric = some m) :
    (flatten c.toJson).get? (rowName (testPath metric ++ ["p_value"])) =
      m.test.map fun t => ofScalar t.p := by
  cases htest : m.test with
  | some t =>
      obtain ⟨notObject, notArray⟩ := isAtom_ofScalar t.p
      have hleaf : LeafAt c.toJson (testPath metric ++ ["p_value"]) (ofScalar t.p) := by
        refine leafAt_testPath.mpr ⟨m, hm, ?_⟩
        rw [htest]
        exact (leafAt_object_cons (by simp) (by simp)).mpr (.here notObject notArray)
      exact (get?_flatten hc.distinct hc.undotted).mpr ⟨_, ⟨hleaf, _, _, rfl, by decide⟩, rfl⟩
  | none =>
      rw [Option.map_none, Option.eq_none_iff_forall_ne_some]
      intro leaf hleaf
      obtain ⟨path, hreports, hname⟩ := (get?_flatten hc.distinct hc.undotted).mp hleaf
      have hpath : path = testPath metric ++ ["p_value"] := by
        refine rowName_injective hreports.ne_nil (List.cons_ne_nil _ _)
          (hreports.1.undotted hc.undotted) ?_ hname
        simp only [testPath, List.cons_append, List.nil_append, List.forall_mem_cons]
        exact ⟨by decide, hmetric, by decide, by decide, List.forall_mem_nil _⟩
      rw [hpath] at hreports
      -- Where a test was not made there is null, which has no parts.
      obtain ⟨m', hm', hleaf'⟩ := leafAt_testPath.mp hreports.1
      rw [hm] at hm'
      cases hm'
      rw [htest] at hleaf'
      cases hleaf'

end

/-! ### The texts of a column -/

theorem cellText_ofNumber? (x : Option Binary64) :
    cellText (.value (ofNumber? x)) = statisticText x := by
  cases x with
  | none => rfl
  | some x =>
      show cellText (.value (if x.isFinite then .float x else .null)) =
        if x.isFinite then Report.numberText x else missingMark
      split
      · rfl
      · rfl

section

variable {t : PivotTable Binary64} {name : String} {columns : List (String × Json Binary64)}
  {i : Nat} {column : String × Json Binary64}

theorem PivotTable.row?_eq_some {row : PivotRow Binary64} (h : t.row? name = some row) :
    row ∈ t.rows ∧ row.name = name :=
  ⟨List.mem_of_find?_eq_some h, by simpa using List.find?_some h⟩

/-- A leaf of a column has a row. -/
theorem PivotTable.isSome_row? (hi : columns[i]? = some column) {leaf : Json Binary64}
    (hleaf : (flatten column.2).get? name = some leaf) :
    ((ofColumns columns).row? name).isSome = true := by
  have hname : name ∈ (ofColumns columns).rows.map (·.name) := by
    rw [names_ofColumns, mem_rowNames]
    exact ⟨_, List.mem_map.mpr ⟨column, List.mem_of_getElem? hi, rfl⟩, leaf, hleaf⟩
  obtain ⟨row, hrow, rfl⟩ := List.mem_map.mp hname
  exact List.find?_isSome.mpr ⟨row, hrow, by simp⟩

/-- **The text of a column is that of its leaf**, a dash if it has none. -/
theorem PivotTable.textAt_ofColumns (hi : columns[i]? = some column) (name : String) :
    (ofColumns columns).textAt i name =
      cellText (PivotCell.ofOption ((flatten column.2).get? name)) := by
  unfold textAt
  cases hrow : (ofColumns columns).row? name with
  | some row =>
      obtain ⟨hmem, rfl⟩ := row?_eq_some hrow
      rw [Option.bind_some, getElem?_cells hmem, hi]
      rfl
  | none =>
      have hleaf : (flatten column.2).get? name = none := by
        rw [Option.eq_none_iff_forall_ne_some]
        intro leaf hleaf
        have hsome := isSome_row? hi hleaf
        rw [hrow] at hsome
        cases hsome
      rw [hleaf]
      rfl

/-- A row of the table is printed by both text reports. -/
theorem Report.prints_of_row? {r : Report Binary64} (hpivot : r.pivot = ofColumns columns)
    (hi : columns[i]? = some column) (hrow : (r.pivot.row? name).isSome = true) :
    r.Prints name i (r.pivot.textAt i name) := by
  obtain ⟨row, hrow⟩ := Option.isSome_iff_exists.mp hrow
  obtain ⟨hmem, hname⟩ := row?_eq_some hrow
  obtain ⟨cell, hcell⟩ : ∃ cell, row.cells[i]? = some cell := by
    rw [hpivot] at hmem
    exact ⟨_, by rw [getElem?_cells hmem, hi]; rfl⟩
  have htext : r.pivot.textAt i name = cellText cell := by
    rw [textAt, hrow, Option.bind_some, hcell]
  have hcolumns : ¬ r.pivot.columns.isEmpty = true := by
    rw [hpivot, List.isEmpty_iff]
    intro hnone
    rw [List.map_eq_nil_iff.mp hnone] at hi
    cases hi
  refine ⟨row, hrow, ?_, ?_, ?_⟩
  · rw [List.getElem?_map, hcell, htext]
    rfl
  · rw [Markdown.pivotLines, if_neg hcolumns, ← hname]
    exact List.mem_cons_of_mem _ (List.mem_cons_of_mem _ (List.mem_map.mpr ⟨row, hmem, rfl⟩))
  · rw [← hname]
    exact ⟨_, List.mem_append_right _ (List.mem_map.mpr ⟨row, hmem, rfl⟩)⟩

end

/-! ### The parts on a comparison -/

section

variable {c : Comparison Binary64} {text : String → String}
  (htext : ∀ e ∈ c.figures, text e.1 = statisticText e.2)
include htext

theorem Report.Markdown.comparisonLines_eq_form : comparisonLines c = form c.pair text := by
  simp only [Comparison.figures, List.forall_mem_cons] at htext
  obtain ⟨hmean, hmedian, hq1, hq3, -, -, hslope, hintercept, hexplained, -⟩ := htext
  rw [form, hmean, hmedian, hq1, hq3, hslope, hintercept, hexplained]
  rfl

theorem Report.Console.comparisonLines_eq_form (hdata : c.hasData = true)
    {duration : MetricComparison Binary64} (hduration : c.metrics.get? "duration" = some duration)
    (hpValue : text pValueName = statisticText (duration.test.map (·.p))) :
    comparisonLines c = form c.pair c.speedupStats (significanceMark duration) text := by
  simp only [Comparison.figures, List.forall_mem_cons] at htext
  obtain ⟨hmean, hmedian, hq1, hq3, hfirst, hsecond, hslope, hintercept, hexplained, -⟩ := htext
  rw [comparisonLines, if_pos hdata, hduration, form, hmean, hmedian, hq1, hq3, hfirst, hsecond,
    hslope, hintercept, hexplained, hpValue]
  rfl

end

/-! ### The column of a comparison -/

section

variable {config : Config} {generatedAt : String} {runs : List (Run Binary64)}
  {r : Report Binary64} {i : Nat} {c : Comparison Binary64}

/-- The columns of the pivot table of a report. -/
def Report.columns (r : Report Binary64) : List (String × Json Binary64) :=
  r.comparisons.map fun c => (c.pair.label, c.toJson)

theorem Report.getElem?_columns (hi : r.comparisons[i]? = some c) :
    r.columns[i]? = some (c.pair.label, c.toJson) := by
  rw [columns, List.getElem?_map, hi]
  rfl

variable (h : analyze config generatedAt runs = .ok r)
include h

theorem Report.pivot_of_analyze : r.pivot = ofColumns r.columns := (Report.of_analyze h).2.2

/-- The comparisons of a report have the metrics of the standard catalog. -/
theorem Report.namedBy_of_analyze (hc : c ∈ r.comparisons) :
    NamedBy ⟨comparisonMetrics, comparisonMetrics_distinct⟩ c := by
  rw [(Report.of_analyze h).2.1] at hc
  obtain ⟨pair, -, hpair⟩ := List.mem_map.mp hc
  rw [← hpair]
  exact namedBy_compare _ _ pair

theorem Report.tabular_of_analyze (hc : c ∈ r.comparisons) : c.toJson.Tabular :=
  toJson_tabular (Report.namedBy_of_analyze h hc) (by decide)

theorem Report.textAt_of_analyze (hi : r.comparisons[i]? = some c) (name : String) :
    r.pivot.textAt i name = cellText (PivotCell.ofOption ((flatten c.toJson).get? name)) := by
  rw [Report.pivot_of_analyze h, textAt_ofColumns (Report.getElem?_columns hi)]

/--
**The tables of a text report agree.**

Each comparison of an analysis is printed with the texts of its own column of the pivot table.
-/
theorem tables_agree (hi : r.comparisons[i]? = some c) : TablesAgree r i c := by
  have hc : c ∈ r.comparisons := List.mem_of_getElem? hi
  have htabular : c.toJson.Tabular := Report.tabular_of_analyze h hc
  have hpivot := Report.pivot_of_analyze h
  have hcolumn := Report.getElem?_columns hi
  have htext : ∀ e ∈ c.figures, r.pivot.textAt i e.1 = statisticText e.2 := by
    intro e he
    rw [Report.textAt_of_analyze h hi, c.get?_flatten_figures htabular e he, PivotCell.ofOption,
      cellText_ofNumber?]
  refine ⟨fun name hname => ?_, Report.prints_of_row? hpivot hcolumn,
    Report.Markdown.comparisonLines_eq_form htext, fun hdata => ?_⟩
  · obtain ⟨e, he, rfl⟩ : ∃ e ∈ c.figures, e.1 = name := List.mem_map.mp hname
    refine Report.prints_of_row? hpivot hcolumn ?_
    rw [hpivot]
    exact isSome_row? hcolumn (c.get?_flatten_figures htabular e he)
  · obtain ⟨duration, hduration⟩ : ∃ m, c.metrics.get? "duration" = some m :=
      KeyMap.mem_keys_iff.mp (((Report.namedBy_of_analyze h hc).metrics _).mpr (by decide))
    refine ⟨duration, hduration, ?_⟩
    refine Report.Console.comparisonLines_eq_form htext hdata hduration ?_
    rw [Report.textAt_of_analyze h hi, pValueName_eq,
      c.get?_flatten_pValue htabular (by decide) hduration]
    cases duration.test with
    | none => rfl
    | some t => exact cellText_ofNumber? (some t.p)

end

theorem tables_agree_halfMeasured : ∃ r c, analyze halfMeasured "now" mixedRuns = .ok r ∧
    r.comparisons[0]? = some c ∧ c.hasData = true ∧ TablesAgree r 0 c := by
  obtain ⟨r, h⟩ := exists_analyze halfMeasured "now" complete_mixedRuns
  obtain ⟨hgroups, hcomparisons, -⟩ := Report.of_analyze h
  have hfirst : r.comparisons[0]? =
      some (compare ⟨comparisonMetrics, comparisonMetrics_distinct⟩ r.groups
        ⟨"Baseline", "Optimized"⟩) := by
    rw [hcomparisons]
    rfl
  have hside : ∀ k, k ∈ mixedRuns.map Run.key → ∃ g ∈ r.groups, g.config = k.2 := by
    intro k hk
    obtain ⟨g, hg, hkey⟩ := List.mem_map.mp ((mem_keys_of_aggregate hgroups).mpr hk)
    exact ⟨g, hg, congrArg Prod.snd hkey⟩
  refine ⟨r, _, h, hfirst, ?_, tables_agree h hfirst⟩
  rw [compare_eq_ofGroups _
    (hside (0, "Baseline") (by simp [mixedRuns, Run.key, Run.uniform]))
    (hside (1, "Optimized") (by simp [mixedRuns, Run.key, Run.uniform]))]
  rfl

end RunCompare
