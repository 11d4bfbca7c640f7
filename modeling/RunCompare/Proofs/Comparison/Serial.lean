/-
Comparisons, handed to a serializer.

Each type is handed on as it is declared: a record by the names of its fields, a
part that is inlined by its own fields, a map by its keys.  Every lemma says
that the serializer accepts the value and makes of it the JSON value that the
library builds directly.  So the pivot table of any comparisons can be built
through the serializer, and is the same table (`PivotTable.build_eq`).
-/
import RunCompare.Pivot
import RunCompare.Proofs.Json.Serial

namespace RunCompare

variable {α : Type} [Scalar α]

open Json Stats Serial

/-! ### Statistics -/

/-- A summary, handed on. -/
def Stats.Summary.serial (s : Summary α) : Serial α := record (plain s.fields)

@[simp] theorem Stats.Summary.writes (s : Summary α) : s.serial.Writes s.toJson :=
  writes_record (fieldsWrite_plain _)

/-- A rank test, handed on. -/
def Stats.RankTest.serial (t : RankTest α) : Serial α :=
  record (plain [("u_stat", ofScalar t.u), ("z_score", ofScalar t.z), ("p_value", ofScalar t.p)])

@[simp] theorem Stats.RankTest.writes (t : RankTest α) : t.serial.Writes t.toJson :=
  writes_record (fieldsWrite_plain _)

/-- A regression, handed on. -/
def Stats.Regression.serial (r : Regression α) : Serial α :=
  record (plain
    [("n", .nat r.count), ("slope", ofNumber? (r.fit.map (·.slope))),
      ("intercept", ofNumber? (r.fit.map (·.intercept))),
      ("ss_tot", ofNumber? (r.fit.map (·.total))),
      ("ss_res", ofNumber? (r.fit.map (·.residual))),
      ("r_squared", ofNumber? (r.fit.bind (·.explained)))])

@[simp] theorem Stats.Regression.writes (r : Regression α) : r.serial.Writes r.toJson :=
  writes_record (fieldsWrite_plain _)

/-! ### Groups of runs -/

/-- A record with unknown fields inlined, handed on. -/
def Serial.withOthers (fields : List (String × Serial α)) (others : KeyMap (Json α)) : Serial α :=
  record (fields ++ plain others.entries)

omit [Scalar α] in
theorem Serial.writes_withOthers {fields : List (String × Serial α)}
    {written : List (String × Json α)} (h : FieldsWrite fields written)
    (others : KeyMap (Json α)) :
    (Serial.withOthers fields others).Writes (Json.withOthers written others) :=
  writes_record (h.append (fieldsWrite_plain _))

/-- A leaves phase, handed on. -/
def LeavesPhase.serial (p : LeavesPhase α) : Serial α :=
  Serial.withOthers
    (plain
      [("total_time", ofScalar p.totalTime), ("total_comparisons", ofCount p.totalComparisons),
        ("exact_matches", ofCount p.exactMatches), ("similarity_time", ofScalar p.similarityTime),
        ("similarity_checks", ofCount p.similarityChecks),
        ("characters_compared", ofCount p.charactersCompared)])
    p.others

/-- A bottom-up phase, handed on. -/
def BottomUpPhase.serial (p : BottomUpPhase α) : Serial α :=
  Serial.withOthers
    (plain
      [("total_time", ofScalar p.totalTime), ("similarity_time", ofScalar p.similarityTime)])
    p.others

/-- A breakdown, handed on. -/
def Breakdown.serial (b : Breakdown α) : Serial α :=
  Serial.withOthers [("leaves", b.leaves.serial), ("bottomup", b.bottomUp.serial)] b.others

@[simp] theorem Breakdown.writes (b : Breakdown α) : b.serial.Writes b.toJson := by
  have hleaves : b.leaves.serial.Writes b.leaves.toJson :=
    writes_withOthers (fieldsWrite_plain _) _
  have hbottomUp : b.bottomUp.serial.Writes b.bottomUp.toJson :=
    writes_withOthers (fieldsWrite_plain _) _
  exact writes_withOthers (by simp [hleaves, hbottomUp]) _

/-- The fixed fields of a group of runs, handed on. -/
def RunGroup.fixedSerials (g : RunGroup α) : List (String × Serial α) :=
  [("file_name", .json (.str g.file)), ("config_name", .json (.str g.config)),
    ("test_case_index", .json (ofCount g.testCase)), ("node_count", .json (ofCount g.nodeCount)),
    ("loc", .json (ofCount g.loc)), ("duration_secs", .json (ofScalar g.durationSecs)),
    ("diff_summary", g.breakdown.serial),
    ("no_similarity_checks", .json (ofCount g.similarityChecks)), ("count", .json (.nat g.count))]

/-- A group of runs, handed on: its statistics and its unknown fields are inlined. -/
def RunGroup.serial (g : RunGroup α) : Serial α :=
  record (g.fixedSerials ++ plain (g.stats.map (ofOption ofScalar)).entries
    ++ plain g.others.entries)

@[simp] theorem RunGroup.writes (g : RunGroup α) : g.serial.Writes g.toJson := by
  have hfixed : FieldsWrite g.fixedSerials g.fixedFields := by
    simp [fixedSerials, fixedFields]
  exact writes_record ((hfixed.append (fieldsWrite_plain _)).append (fieldsWrite_plain _))

/-! ### Parts of a comparison -/

/-- The comparison of a metric, handed on. -/
def MetricComparison.serial (m : MetricComparison α) : Serial α :=
  record
    (plain (m.sum.fields "sum" ++ m.median.fields "median" ++ m.q1.fields "q1"
        ++ m.q3.fields "q3")
      ++ [("mann_whitney_u_result", option RankTest.serial m.test),
        ("significant_005", .json (.bool m.significant005)),
        ("significant_001", .json (.bool m.significant001))])

@[simp] theorem MetricComparison.writes (m : MetricComparison α) : m.serial.Writes m.toJson := by
  refine writes_record ((fieldsWrite_plain _).append ?_)
  simp [writes_option RankTest.writes]

/-- A speedup point, handed on. -/
def SpeedupPoint.serial (p : SpeedupPoint α) : Serial α :=
  record (plain
    [("file_name", .str p.file), ("config_name", .str p.config), ("loc", ofCount p.loc),
      ("node_count", ofCount p.nodeCount), ("speedup", ofScalar p.speedup)])

@[simp] theorem SpeedupPoint.writes (p : SpeedupPoint α) : p.serial.Writes p.toJson :=
  writes_record (fieldsWrite_plain _)

/-- A summary of speedups, handed on. -/
def SpeedupStats.serial (s : SpeedupStats α) : Serial α :=
  record (plain
    (s.summary.fields
      ++ [("algo1_better", .nat s.firstBetter), ("algo2_better", .nat s.secondBetter),
        ("algo1_better_ratio", ofNumber? (s.share s.firstBetter)),
        ("algo2_better_ratio", ofNumber? (s.share s.secondBetter)),
        ("undefined", .nat s.undefined)]))

@[simp] theorem SpeedupStats.writes (s : SpeedupStats α) : s.serial.Writes s.toJson :=
  writes_record (fieldsWrite_plain _)

/-- A summary of signed ratios, handed on: the summary is inlined. -/
def ReductionStats.serial (r : ReductionStats α) : Serial α :=
  record (plain r.summary.fields ++ [("undefined", .json (.nat r.undefined))])

@[simp] theorem ReductionStats.writes (r : ReductionStats α) : r.serial.Writes r.toJson :=
  writes_record ((fieldsWrite_plain _).append (by simp))

/-- The shares that similarity computations take, handed on. -/
def SimilarityShares.serial (s : SimilarityShares α) : Serial α :=
  record (plain
    [("leaves", ofNumber? s.leaves), ("bottomup", ofNumber? s.bottomUp),
      ("total", ofNumber? s.total)])

@[simp] theorem SimilarityShares.writes (s : SimilarityShares α) : s.serial.Writes s.toJson :=
  writes_record (fieldsWrite_plain _)

/-- Something for each side, handed on. -/
def Sides.serial {β : Type} (f : β → Serial α) (s : Sides β) : Serial α :=
  record [("algo1", f s.first), ("algo2", f s.second)]

omit [Scalar α] in
theorem Sides.writes {β : Type} {f : β → Serial α} {g : β → Json α} (h : ∀ x, (f x).Writes (g x))
    (s : Sides β) : (s.serial f).Writes (s.toJson g) :=
  writes_record (by simp [h])

/-! ### Comparisons -/

/-- A comparison, handed on. -/
def Comparison.serial (c : Comparison α) : Serial α :=
  record
    [("names", .seq [.json (.str c.pair.first), .json (.str c.pair.second)]),
      ("has_data", .json (.bool c.hasData)), ("data", .seq (c.groups.map RunGroup.serial)),
      ("speedup_data", .seq (c.speedups.map SpeedupPoint.serial)),
      ("algo1_stats", .ofMap Summary.serial c.summaries.first),
      ("algo2_stats", .ofMap Summary.serial c.summaries.second),
      ("algo_comparison", .ofMap MetricComparison.serial c.metrics),
      ("speedup_stats", c.speedupStats.serial), ("regression_stats", c.regression.serial),
      ("similarity_checks_reduction_ratio", c.checksReduction.serial),
      ("total_similarity_ratios", c.similarityShares.serial SimilarityShares.serial),
      ("total_overhead", c.overhead.serial fun x => .json (ofNumber? x))]

/-- **A comparison is accepted, and becomes the JSON value of it.** -/
theorem Comparison.writes (c : Comparison α) : c.serial.Writes c.toJson := by
  have hnames : (Serial.seq [.json (.str c.pair.first), .json (.str c.pair.second)]).Writes
      (.arr [.str c.pair.first, .str c.pair.second] : Json α) := rfl
  refine writes_record ?_
  simp [fields, hnames, writes_seq, writes_ofMap, Sides.writes]

/-! ### The pivot table -/

/-- The table of comparisons, each of which is handed to the serializer. -/
def PivotTable.build (comparisons : List (Comparison α)) :
    Except SerializationError (PivotTable α) := do
  let columns ← comparisons.mapM fun c => do return (c.pair.label, ← c.serial.toJson?)
  return ofColumns columns

/-- **No comparison is refused on the way to the pivot table.** -/
theorem PivotTable.build_eq (comparisons : List (Comparison α)) :
    build comparisons = .ok (ofComparisons comparisons) := by
  have hcolumn : (fun c : Comparison α => do return (c.pair.label, ← c.serial.toJson?)) =
      fun c => Except.ok (ε := SerializationError) (c.pair.label, c.toJson) := by
    funext c
    rw [show c.serial.toJson? = .ok c.toJson from c.writes]
    rfl
  have hcolumns : comparisons.mapM (fun c : Comparison α => do
        return (c.pair.label, ← c.serial.toJson?)) =
      Except.ok (ε := SerializationError) (comparisons.map fun c => (c.pair.label, c.toJson)) := by
    rw [hcolumn]
    exact List.mapM_pure
  unfold build
  rw [hcolumns]
  rfl

end RunCompare
