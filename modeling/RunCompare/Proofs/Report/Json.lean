/-
The report as a JSON value agrees with itself.

The value is the plain serialization of the report, from whose comparisons the
groups and the speedup points have been left out.  The pivot table in it was
built from whole comparisons, yet it is the table of the comparisons that are
left: what is left out is an array, which has no leaves, or lies under a key
that never becomes a row (`flatten_withoutKeys`).

The serialization is stated as what a serializer makes of the report when it is
handed on field by field, as in `Proofs/Comparison/Serial`.
-/
import RunCompare.Report.Json
import RunCompare.Proofs.Aggregation.Outcome
import RunCompare.Proofs.Comparison.Rows
import RunCompare.Proofs.Comparison.Serial
import RunCompare.Proofs.Metric.Standard

namespace RunCompare

variable {α : Type}

open Json PivotTable

/-! ### Leaves that are left out -/

/-- Entries without leaves can be left out. -/
theorem Json.leavesOfEntries_filter {p : String × Json α → Bool}
    {entries : List (String × Json α)} (h : ∀ e ∈ entries, p e = false → e.2.leaves = []) :
    leavesOfEntries (entries.filter p) = leavesOfEntries entries := by
  induction entries with
  | nil => rfl
  | cons e rest ih =>
      obtain ⟨hfirst, hrest⟩ := List.forall_mem_cons.mp h
      rw [List.filter_cons]
      cases hp : p e with
      | true =>
          rw [if_pos rfl, leavesOfEntries, leavesOfEntries, ih hrest]
      | false =>
          rw [if_neg (by decide), leavesOfEntries, hfirst hp, ih hrest]
          rfl

theorem flatten_obj (entries : List (String × Json α)) : flatten (.obj entries) =
    KeyMap.ofList ((leavesOfEntries (entries.filter fun e => !excludedKeys.contains e.1)).map
      fun leaf => (rowName leaf.1, leaf.2)) := rfl

theorem Report.withoutKeys_obj (keys : List String) (entries : List (String × Json α)) :
    withoutKeys keys (.obj entries) = .obj (entries.filter fun e => !keys.contains e.1) := rfl

/-- **Keys can be left out of a column if each of them is excluded or holds an array.** -/
theorem flatten_withoutKeys {keys : List String} {entries : List (String × Json α)}
    (h : ∀ e ∈ entries, e.1 ∈ keys → e.1 ∉ excludedKeys → ∃ elements, e.2 = .arr elements) :
    flatten (Report.withoutKeys keys (.obj entries)) = flatten (.obj entries) := by
  rw [Report.withoutKeys_obj, flatten_obj, flatten_obj, List.filter_comm, leavesOfEntries_filter]
  intro e he hleft
  obtain ⟨hmem, hreported⟩ := List.mem_filter.mp he
  obtain ⟨elements, helements⟩ := h e hmem (by simpa using hleft) (by simpa using hreported)
  rw [helements]
  rfl

section

variable [Scalar α]

theorem Comparison.toJson_eq_obj (c : Comparison α) :
    c.toJson = .obj (KeyMap.ofList c.fields).entries := rfl

/-- The value under a key of a comparison. -/
theorem Comparison.get?_fields {c : Comparison α} {k : String} {v : Json α}
    (hmem : (k, v) ∈ c.fields) : (KeyMap.ofList c.fields).get? k = some v :=
  KeyMap.get?_ofList_of_mem c.fields_distinct hmem

/-- The value of a comparison in a report. -/
def Comparison.trimmed (c : Comparison α) : Json α :=
  Report.withoutKeys Report.omittedKeys c.toJson

theorem Report.toJson_eq_valueWith (r : Report α) : r.toJson = r.valueWith Comparison.trimmed := rfl

/-- **A comparison has the same leaves without its groups and speedup points.** -/
theorem flatten_trimmed (c : Comparison α) : flatten c.trimmed = flatten c.toJson := by
  unfold Comparison.trimmed
  rw [c.toJson_eq_obj]
  refine flatten_withoutKeys fun e he homitted hreported => ?_
  have hkey : e.1 = "speedup_data" := by
    simp only [Report.omittedKeys, List.mem_cons, List.not_mem_nil, or_false] at homitted
    rcases homitted with hdata | hspeedups
    · rw [hdata] at hreported
      exact absurd (by decide) hreported
    · exact hspeedups
  have hvalue : (KeyMap.ofList c.fields).get? "speedup_data" = some e.2 := by
    rw [← hkey]
    exact KeyMap.mem_entries.mp he
  rw [c.get?_fields (v := .arr (c.speedups.map SpeedupPoint.toJson)) (by simp [Comparison.fields])]
    at hvalue
  exact ⟨_, (Option.some.inj hvalue).symm⟩

end

/-! ### The plain serialization -/

open Serial

/-- A cell, handed on: its kind, and its leaf if there is one. -/
def PivotCell.serial : PivotCell α → Serial α
  | value v => record [("kind", .json (.str "value")), ("value", .json v)]
  | missing => record [("kind", .json (.str "missing"))]

theorem PivotCell.writes (c : PivotCell α) : c.serial.Writes c.toJson := by
  cases c with
  | value v => exact writes_record (by simp)
  | missing => exact writes_record (by simp)

/-- A row, handed on. -/
def PivotRow.serial (r : PivotRow α) : Serial α :=
  record [("stat_name", .json (.str r.name)), ("cells", .seq (r.cells.map PivotCell.serial))]

/-- A pivot table, handed on. -/
def PivotTable.serial (t : PivotTable α) : Serial α :=
  record
    [("columns", .seq (t.columns.map fun label => .json (.str label))),
      ("rows", .seq (t.rows.map PivotRow.serial))]

theorem PivotTable.writes (t : PivotTable α) : t.serial.Writes t.toJson := by
  have hcolumns : (Serial.seq (t.columns.map fun label => .json (.str label))).Writes
      (.arr (t.columns.map .str) : Json α) := writes_seq fun _ => rfl
  have hrow : ∀ r : PivotRow α, r.serial.Writes
      (.object [("stat_name", .str r.name), ("cells", .arr (r.cells.map PivotCell.toJson))]) := by
    intro r
    exact writes_record (by simp [writes_seq PivotCell.writes])
  exact writes_record (by simp [hcolumns, writes_seq hrow])

section

variable [Scalar α]

/-- A report, handed on. -/
def Report.serial (r : Report α) : Serial α :=
  record
    [("name", .json (.str r.name)), ("generated_at", .json (.str r.generatedAt)),
      ("raw_records", .json (.nat r.runCount)),
      ("aggregated", .seq (r.groups.map RunGroup.serial)),
      ("comparisons", .seq (r.comparisons.map Comparison.serial)), ("pivot", r.pivot.serial)]

/-- **A report is accepted, and becomes its full value.** -/
theorem Report.writes (r : Report α) : r.serial.Writes r.fullValue := by
  refine writes_record ?_
  simp [writes_seq RunGroup.writes, writes_seq Comparison.writes, r.pivot.writes]

/-! ### What an analysis puts into its report -/

/-- An analysis fails only if the aggregation does. -/
theorem analyze_eq_map (config : Config) (generatedAt : String) (runs : List (Run α)) :
    analyze config generatedAt runs =
      (aggregate ⟨aggregationMetrics, aggregationMetrics_distinct⟩ runs).map fun groups =>
        let comparisons :=
          compareAll ⟨comparisonMetrics, comparisonMetrics_distinct⟩ groups config.pairs
        { name := config.name, generatedAt, runCount := runs.length, groups, comparisons,
          pivot := ofComparisons comparisons } := by
  unfold analyze
  rw [aggregationCatalog_eq, comparisonCatalog_eq]
  show (aggregate _ runs >>= _) = _
  cases aggregate ⟨aggregationMetrics, aggregationMetrics_distinct⟩ runs with
  | ok groups => rfl
  | error e => rfl

section

variable {config : Config} {generatedAt : String} {runs : List (Run α)} {r : Report α}

/-- The groups of a report are those of the runs, its comparisons those of the configured pairs,
and its table is theirs. -/
theorem Report.of_analyze (h : analyze config generatedAt runs = .ok r) :
    aggregate ⟨aggregationMetrics, aggregationMetrics_distinct⟩ runs = .ok r.groups ∧
      r.comparisons =
        compareAll ⟨comparisonMetrics, comparisonMetrics_distinct⟩ r.groups config.pairs ∧
      r.pivot = ofComparisons r.comparisons := by
  rw [analyze_eq_map] at h
  cases hgroups : aggregate ⟨aggregationMetrics, aggregationMetrics_distinct⟩ runs with
  | error e =>
      rw [hgroups] at h
      cases h
  | ok groups =>
      rw [hgroups] at h
      cases h
      exact ⟨rfl, rfl, rfl⟩

/-- There is one comparison for each configured pair. -/
theorem Report.pairs_of_analyze (h : analyze config generatedAt runs = .ok r) :
    r.comparisons.map (·.pair) = config.pairs := by
  rw [(of_analyze h).2.1, compareAll, List.map_map]
  exact (List.map_congr_left fun pair _ => pair_compare _ _ pair).trans (List.map_id _)

/-- Complete runs are analysed. -/
theorem exists_analyze (config : Config) (generatedAt : String)
    (complete : ∀ r ∈ runs, r.Complete) : ∃ r, analyze config generatedAt runs = .ok r := by
  obtain ⟨groups, hgroups⟩ : ∃ groups,
      aggregate ⟨aggregationMetrics, aggregationMetrics_distinct⟩ runs = .ok groups :=
    exists_aggregate_iff.mpr complete
  rw [analyze_eq_map, hgroups]
  exact ⟨_, rfl⟩

end

/-! ### The value -/

/-- One object is what is left of another without its entries under some keys. -/
inductive LeftWithout (keys : List String) : Json α → Json α → Prop
  | intro {entries : List (String × Json α)} (present : ∀ k ∈ keys, k ∈ entries.map (·.1)) :
      LeftWithout keys (.obj entries) (.obj (entries.filter fun e => decide (e.1 ∉ keys)))

/-- A comparison in a report as a column of a pivot table, labelled by its two names. -/
def column? (comparison : Json α) : Option (String × Json α) :=
  match comparison.field? "names" with
  | some (.arr [.str first, .str second]) => some (first ++ " vs " ++ second, comparison)
  | _ => none

/-- The JSON value of a report agrees with the plain serialization of the report, and with its own
pivot table. -/
structure SelfConsistent (full value : Json α) : Prop where
  /-- The value is the plain serialization, entry by entry, but for the groups and the speedup
  points of each comparison. -/
  serialization : ∃ entries entries', full = .obj entries ∧ value = .obj entries' ∧
    List.Forall₂ (fun e e' => e.1 = e'.1 ∧
      if e.1 = "comparisons" then
        ∃ whole left, e.2 = .arr whole ∧ e'.2 = .arr left ∧
          List.Forall₂ (LeftWithout ["data", "speedup_data"]) whole left
      else e.2 = e'.2) entries entries'
  /-- The comparisons in the value, labelled by their names, have the pivot table in the value. -/
  pivot : ∃ comparisons columns, value.field? "comparisons" = some (.arr comparisons) ∧
    comparisons.mapM column? = some columns ∧
      value.field? "pivot" = some (ofColumns columns).toJson

/-- What is left of a comparison in a report still tells its names. -/
theorem column?_trimmed (c : Comparison α) : column? c.trimmed = some (c.pair.label, c.trimmed) := by
  have hnames : c.trimmed.field? "names" =
      some (.arr [.str c.pair.first, .str c.pair.second]) := by
    unfold Comparison.trimmed
    rw [c.toJson_eq_obj, Report.withoutKeys_obj]
    show List.lookup "names" (List.filter _ _) = _
    rw [KeyMap.lookup_filter_key fun k => !Report.omittedKeys.contains k]
    exact c.get?_fields (by simp [Comparison.fields])
  unfold column?
  rw [hnames]
  rfl

/-- The comparisons in a report are columns of a pivot table. -/
theorem mapM_column?_trimmed (comparisons : List (Comparison α)) :
    (comparisons.map Comparison.trimmed).mapM column? =
      some (comparisons.map fun c => (c.pair.label, c.trimmed)) := by
  induction comparisons with
  | nil => rfl
  | cons c rest ih =>
      rw [List.map_cons, List.mapM_cons, column?_trimmed, ih]
      rfl

/-- The fields of a report, with the given value for each comparison. -/
def Report.fieldsWith (comparison : Comparison α → Json α) (r : Report α) :
    List (String × Json α) :=
  [("name", .str r.name), ("generated_at", .str r.generatedAt), ("raw_records", .nat r.runCount),
    ("aggregated", .arr (r.groups.map RunGroup.toJson)),
    ("comparisons", .arr (r.comparisons.map comparison)), ("pivot", r.pivot.toJson)]

theorem Report.field?_valueWith (comparison : Comparison α → Json α) (r : Report α) {k : String}
    {v : Json α} (hmem : (k, v) ∈ r.fieldsWith comparison) :
    (r.valueWith comparison).field? k = some v := by
  have hdistinct : ((r.fieldsWith comparison).map (·.1)).Nodup := by
    show ["name", "generated_at", "raw_records", "aggregated", "comparisons", "pivot"].Nodup
    decide
  exact KeyMap.get?_ofList_of_mem hdistinct hmem

/-- Without groups and speedup points comparisons have the same pivot table. -/
theorem ofColumns_trimmed (comparisons : List (Comparison α)) :
    ofColumns (comparisons.map fun c => (c.pair.label, c.trimmed)) = ofComparisons comparisons := by
  unfold ofComparisons ofColumns
  simp only [List.map_map, Function.comp_def, flatten_trimmed]

/-- What is left of a comparison lacks the two keys that are left out, and nothing else. -/
theorem leftWithout_trimmed (c : Comparison α) :
    LeftWithout ["data", "speedup_data"] c.toJson c.trimmed := by
  have hpresent : ∀ k ∈ ["data", "speedup_data"], k ∈ (KeyMap.ofList c.fields).keys := by
    intro k hk
    rw [KeyMap.mem_keys, KeyMap.contains_ofList]
    simp only [Comparison.fields, List.map_cons, List.map_nil, List.mem_cons, List.not_mem_nil,
      or_false] at hk ⊢
    tauto
  have hfilter : c.trimmed = .obj ((KeyMap.ofList c.fields).entries.filter fun e =>
      decide (e.1 ∉ ["data", "speedup_data"])) := by
    unfold Comparison.trimmed
    rw [c.toJson_eq_obj, Report.withoutKeys_obj]
    refine congrArg Json.obj (List.filter_congr fun e _ => ?_)
    rw [Bool.eq_iff_iff]
    simp [Report.omittedKeys]
  rw [hfilter]
  exact .intro hpresent

/--
**The JSON report of an analysis is its plain serialization less the data of the comparisons, and
still has the pivot table of the comparisons in it.**
-/
theorem toJson_selfConsistent {config : Config} {generatedAt : String} {runs : List (Run α)}
    {r : Report α} (h : analyze config generatedAt runs = .ok r) :
    ∃ full, r.serial.toJson? = .ok full ∧ SelfConsistent full r.toJson := by
  rw [Report.toJson_eq_valueWith]
  refine ⟨r.fullValue, r.writes, ⟨_, _, rfl, rfl, ?_⟩, ?_⟩
  · have hless : ∀ c ∈ r.comparisons, LeftWithout ["data", "speedup_data"] c.toJson c.trimmed :=
      fun c _ => leftWithout_trimmed c
    exact KeyMap.forall₂_ofList (fun _ _ he => he.1) (by simpa using hless)
  · have hcolumns := mapM_column?_trimmed r.comparisons
    refine ⟨_, _, ?_, hcolumns, ?_⟩
    · exact Report.field?_valueWith Comparison.trimmed r (by simp [Report.fieldsWith])
    · rw [ofColumns_trimmed, ← (Report.of_analyze h).2.2]
      exact Report.field?_valueWith Comparison.trimmed r (by simp [Report.fieldsWith])

end

/-- A pair with runs on both sides, and one with runs on one side only. -/
def halfMeasured : Config := ⟨"study", none, false, [⟨"Baseline", "Optimized"⟩, ⟨"Ghost", "Baseline"⟩]⟩

theorem toJson_halfMeasured : ∃ r, analyze halfMeasured "now" mixedRuns = .ok r ∧
    r.comparisons.map (·.pair) = halfMeasured.pairs ∧
      ∃ full, r.serial.toJson? = .ok full ∧ SelfConsistent full r.toJson := by
  obtain ⟨r, h⟩ := exists_analyze halfMeasured "now" complete_mixedRuns
  exact ⟨r, h, Report.pairs_of_analyze h, toJson_selfConsistent h⟩

end RunCompare
