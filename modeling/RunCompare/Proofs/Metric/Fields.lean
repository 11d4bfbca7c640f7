/-
What is said about the numeric fields of records is true of the records.

Whether records of a type have a field at a path is looked up in a table, and the
value of one record is read by a function of its own.  The two agree on every path
that a text writes (`hasField_agrees_fieldValue`):

* without a field in the table no record has a value (`Run.agrees`,
  `RunGroup.agrees`);
* with one every complete run has a value, because the parts of a complete report
  are all there, and every group of runs has one, unless it is a statistic of a
  metric that no run of the group has.
-/
import RunCompare.Proofs.Aggregation.FlatRecord
import RunCompare.Proofs.FieldPath
import RunCompare.Proofs.Metric.Standard

namespace RunCompare

open Stats

variable {α : Type} [Scalar α]

/-! ### What is said -/

/-- The texts of the numeric fields that runs and groups of runs have in common. -/
def numericFields : List String :=
  ["test_case_index", "node_count", "loc", "duration_secs", "diff_summary.leaves.total_time",
    "diff_summary.leaves.total_comparisons", "diff_summary.leaves.exact_matches",
    "diff_summary.leaves.similarity_time", "diff_summary.leaves.similarity_checks",
    "diff_summary.leaves.characters_compared", "diff_summary.bottomup.total_time",
    "diff_summary.bottomup.similarity_time"]

/-- The texts of the common fields write their paths. -/
theorem ofText?_commonFields : ∀ segments ∈ commonFields,
    FieldPath.ofText? (".".intercalate segments) = some ⟨segments⟩ := by
  decide

theorem numericFields_eq : numericFields = commonFields.map (".".intercalate ·) := by
  decide

/-- What is looked up by segments could be looked up by the whole text. -/
theorem mem_commonFields_iff {text : String} {p : FieldPath}
    (h : FieldPath.ofText? text = some p) : p.segments ∈ commonFields ↔ text ∈ numericFields := by
  rw [numericFields_eq, List.mem_map]
  constructor
  · intro hmem
    exact ⟨p.segments, hmem, (FieldPath.ofText?_eq_some_iff.mp h).2.2⟩
  · rintro ⟨segments, hmem, rfl⟩
    rw [ofText?_commonFields segments hmem] at h
    cases h
    exact hmem

theorem isStatisticKey_iff {key : String} : isStatisticKey key = true ↔
    ∃ name ∈ aggregationMetricNames, ∃ s : Statistic, key = statisticKey name s.suffix := by
  unfold isStatisticKey
  simp only [List.any_eq_true, beq_iff_eq]
  constructor
  · rintro ⟨s, -, name, hname, heq⟩
    exact ⟨name, hname, s, heq.symm⟩
  · rintro ⟨name, hname, s, heq⟩
    exact ⟨s, s.mem_all, name, hname, heq.symm⟩

theorem isSegment_of_mem_computedKeys {key : String} (h : key ∈ computedKeys) :
    FieldPath.IsSegment key := by
  have table : ∀ key ∈ computedKeys, key ≠ "" ∧ '.' ∉ key.toList := by decide
  exact table key h

/-- The key of a statistic has no points. -/
theorem isSegment_of_isStatisticKey {key : String} (h : isStatisticKey key = true) :
    FieldPath.IsSegment key := by
  obtain ⟨name, hname, s, rfl⟩ := isStatisticKey_iff.mp h
  have hnames : ∀ name ∈ aggregationMetricNames, '.' ∉ name.toList := by decide
  have hendings : ∀ s ∈ Statistic.all, s.ending ≠ [] ∧ '.' ∉ s.ending := by decide
  obtain ⟨hne, hending⟩ := hendings s s.mem_all
  have hlist : (statisticKey name s.suffix).toList = name.toList ++ s.ending :=
    toList_statisticKey name s
  constructor
  · intro hempty
    rw [hempty] at hlist
    exact hne (List.append_eq_nil_iff.mp hlist.symm).2
  · rw [hlist, List.mem_append, not_or]
    exact ⟨hnames name hname, hending⟩

/-- Groups of runs have the common fields, two counts, and the statistics. -/
theorem RunGroup.hasField_iff {p : FieldPath} : RunGroup.hasField p = true ↔
    p.segments ∈ commonFields ∨
      ∃ key, p.segments = [key] ∧ (key ∈ computedKeys ∨ isStatisticKey key = true) := by
  obtain ⟨segments⟩ := p
  unfold RunGroup.hasField
  split
  all_goals simp_all [computedKeys]

/-! ### The counters of a phase -/

section

variable {name : String}

theorem LeavesReport.counter?_of_not_mem (h : ["diff_summary", "leaves", name] ∉ commonFields)
    (r : LeavesReport α) : r.counter? name = none := by
  unfold counter?
  split
  case h_7 => rfl
  all_goals exact absurd (by decide) h

omit [Scalar α] in
theorem BottomUpReport.counter?_of_not_mem (h : ["diff_summary", "bottomup", name] ∉ commonFields)
    (r : BottomUpReport α) : r.counter? name = none := by
  unfold counter?
  split
  case h_3 => rfl
  all_goals exact absurd (by decide) h

theorem LeavesPhase.counter?_of_not_mem (h : ["diff_summary", "leaves", name] ∉ commonFields)
    (p : LeavesPhase α) : p.counter? name = none := by
  unfold counter?
  split
  case h_7 => rfl
  all_goals exact absurd (by decide) h

omit [Scalar α] in
theorem BottomUpPhase.counter?_of_not_mem (h : ["diff_summary", "bottomup", name] ∉ commonFields)
    (p : BottomUpPhase α) : p.counter? name = none := by
  unfold counter?
  split
  case h_3 => rfl
  all_goals exact absurd (by decide) h

end

/-! ### Runs -/

/-- Whether runs have a field at a path tells whether each of them has a value there. -/
structure Run.Agrees (α : Type) [Scalar α] (p : FieldPath) : Prop where
  /-- The path is one of those listed. -/
  declared : Measured.hasField (Run α) p = true ↔ p.text ∈ numericFields
  /-- Without a field no run has a value. -/
  absent : Measured.hasField (Run α) p = false → ∀ r : Run α, Measured.fieldValue r p = none
  /-- With one, every complete run has a value. -/
  present : Measured.hasField (Run α) p = true → ∀ r : Run α, r.Complete →
    ∃ x, Measured.fieldValue r p = some x

theorem Run.fieldValue_of_not_mem {p : FieldPath} (h : p.segments ∉ commonFields) (r : Run α) :
    r.fieldValue p = none := by
  obtain ⟨segments⟩ := p
  unfold Run.fieldValue
  dsimp only at h ⊢
  split
  case h_5 name => simp only [LeavesReport.counter?_of_not_mem h, Option.bind_fun_none]
  case h_6 name => simp only [BottomUpReport.counter?_of_not_mem h, Option.bind_fun_none]
  case h_7 => rfl
  all_goals exact absurd (by decide) h

theorem Run.isSome_fieldValue_of_mem {r : Run α} (hr : r.Complete) :
    ∀ segments ∈ commonFields, (r.fieldValue ⟨segments⟩).isSome = true := by
  have hparts : ∀ part ∈ r.parts, part.2 = true := by
    rintro ⟨path, present⟩ hpart
    cases present with
    | true => rfl
    | false => exact absurd ⟨path, hpart⟩ (r.complete_iff_not_lacking.mp hr)
  simp only [parts, List.forall_mem_cons] at hparts
  obtain ⟨-, hleaves, htotal, hcompared, hexact, hsimilarity, hchecks, hcharacters, hbottomUp,
    htotal', hsimilarity', -⟩ := hparts
  obtain ⟨leaves, hleaves⟩ := Option.isSome_iff_exists.mp hleaves
  obtain ⟨bottomUp, hbottomUp⟩ := Option.isSome_iff_exists.mp hbottomUp
  simp only [hleaves, Option.bind_some] at htotal hcompared hexact hsimilarity hchecks hcharacters
  simp only [hbottomUp, Option.bind_some] at htotal' hsimilarity'
  simp [commonFields, fieldValue, LeavesReport.counter?, BottomUpReport.counter?, *]

theorem Run.agrees {text : String} {p : FieldPath} (h : FieldPath.ofText? text = some p) :
    Run.Agrees α p where
  declared := by
    rw [(FieldPath.ofText?_eq_some_iff.mp h).2.2, ← mem_commonFields_iff h]
    exact List.contains_iff_mem
  absent hno r := by
    refine Run.fieldValue_of_not_mem ?_ r
    intro hmem
    rw [show Measured.hasField (Run α) p = true from List.contains_iff_mem.mpr hmem] at hno
    cases hno
  present hyes r hr := Option.isSome_iff_exists.mp
    (Run.isSome_fieldValue_of_mem hr p.segments (List.contains_iff_mem.mp hyes))

/-! ### Groups of runs -/

/-- Whether groups have a field at a path tells whether this one has a value there. -/
structure RunGroup.Agrees (g : RunGroup α) (p : FieldPath) : Prop where
  /-- The path is one of those listed, or the key of a statistic. -/
  declared : Measured.hasField (RunGroup α) p = true ↔
    p.text ∈ numericFields ∨ p.text ∈ computedKeys ∨
      ∃ name ∈ aggregationMetricNames, ∃ s : Statistic, p.text = statisticKey name s.suffix
  /-- Without a field there is no value. -/
  absent : Measured.hasField (RunGroup α) p = false → Measured.fieldValue g p = none
  /-- With one there is a value, or a statistic, and the value is that of the statistic. -/
  present : Measured.hasField (RunGroup α) p = true →
    ((p.text ∈ numericFields ∨ p.text ∈ computedKeys) ∧ ∃ x, Measured.fieldValue g p = some x) ∨
      ∃ value, g.stats.get? p.text = some value ∧ Measured.fieldValue g p = value

namespace RunGroup

variable {p : FieldPath} {g : RunGroup α}

theorem fieldValue_commonFields (g : RunGroup α) :
    ∀ segments ∈ commonFields, ∃ x, g.fieldValue ⟨segments⟩ = some x := by
  simp [commonFields, fieldValue, LeavesPhase.counter?, BottomUpPhase.counter?]

theorem fieldValue_computedKeys (g : RunGroup α) :
    ∀ key ∈ computedKeys, ∃ x, g.fieldValue ⟨[key]⟩ = some x := by
  simp only [computedKeys, List.forall_mem_cons]
  exact ⟨⟨_, rfl⟩, ⟨_, rfl⟩, by simp⟩

/-- Under the key of a statistic the statistic is read. -/
theorem fieldValue_statistic {key : String} (h : isStatisticKey key = true) (g : RunGroup α) :
    g.fieldValue ⟨[key]⟩ = g.statAt? key := by
  obtain ⟨metric, -, s, rfl⟩ := isStatisticKey_iff.mp h
  have hfixed : ∀ key ∈ fixedKeys, statisticKey metric s.suffix ≠ key :=
    fun key hkey heq => fixedKeys_not_statistic hkey metric s heq.symm
  simp only [fixedKeys, List.forall_mem_cons] at hfixed
  unfold fieldValue
  split
  all_goals simp_all

/-- Where groups have no field this one has no value, if all its statistics are known ones. -/
theorem fieldValue_of_not_hasField
    (hstats : ∀ key, g.stats.contains key = true → isStatisticKey key = true)
    (h : ¬ RunGroup.hasField p = true) : g.fieldValue p = none := by
  obtain ⟨segments⟩ := p
  rw [hasField_iff] at h
  unfold fieldValue
  dsimp only at h ⊢
  split
  case h_7 key _ _ _ _ _ _ =>
    have hkey : ¬ isStatisticKey key = true := fun hkey => h (Or.inr ⟨key, rfl, Or.inr hkey⟩)
    have hnone : g.stats.get? key = none :=
      Option.not_isSome_iff_eq_none.mp fun hsome => hkey (hstats key hsome)
    rw [statAt?, hnone, Option.join_none]
  case h_8 name => exact LeavesPhase.counter?_of_not_mem (fun hmem => h (Or.inl hmem)) _
  case h_9 name => exact BottomUpPhase.counter?_of_not_mem (fun hmem => h (Or.inl hmem)) _
  case h_10 => rfl
  case h_5 => exact absurd (Or.inr ⟨_, rfl, by decide⟩) h
  case h_6 => exact absurd (Or.inr ⟨_, rfl, by decide⟩) h
  all_goals exact absurd (Or.inl (by decide)) h

theorem agrees (hstats : ∀ key, g.stats.contains key = true ↔ isStatisticKey key = true)
    {text : String} (h : FieldPath.ofText? text = some p) : g.Agrees p := by
  have htext : p.text = text := (FieldPath.ofText?_eq_some_iff.mp h).2.2
  have hsingle : ∀ key, p.segments = [key] → p.text = key := by
    intro key hkey
    rw [FieldPath.text, hkey, String.intercalate_singleton]
  constructor
  · show RunGroup.hasField p = true ↔ _
    rw [← isStatisticKey_iff, hasField_iff, mem_commonFields_iff h, htext]
    refine or_congr_right ⟨?_, ?_⟩
    · rintro ⟨key, hkey, hmem⟩
      rwa [← htext, hsingle key hkey]
    · intro hmem
      have hsegment : FieldPath.IsSegment text :=
        hmem.elim isSegment_of_mem_computedKeys isSegment_of_isStatisticKey
      rw [FieldPath.ofText?_of_isSegment hsegment] at h
      cases h
      exact ⟨text, rfl, hmem⟩
  · intro hno
    refine fieldValue_of_not_hasField (fun key => (hstats key).mp) ?_
    rw [show RunGroup.hasField p = false from hno]
    exact Bool.false_ne_true
  · intro hyes
    rcases hasField_iff.mp hyes with hcommon | ⟨key, hkey, hcomputed | hstatistic⟩
    · rw [htext]
      exact Or.inl
        ⟨Or.inl ((mem_commonFields_iff h).mp hcommon), fieldValue_commonFields g _ hcommon⟩
    · rw [hsingle key hkey]
      obtain ⟨segments⟩ := p
      cases hkey
      exact Or.inl ⟨Or.inr hcomputed, fieldValue_computedKeys g key hcomputed⟩
    · rw [hsingle key hkey]
      obtain ⟨segments⟩ := p
      cases hkey
      obtain ⟨value, hvalue⟩ := Option.isSome_iff_exists.mp ((hstats key).mpr hstatistic)
      refine Or.inr ⟨value, hvalue, ?_⟩
      show g.fieldValue _ = _
      rw [fieldValue_statistic hstatistic, statAt?, hvalue, Option.join_some]

end RunGroup

/-- With the standard catalog the statistics of a group are the known ones. -/
theorem contains_stats_of_aggregate {catalog : Catalog (Run α) α}
    (hcatalog : aggregationCatalog = .ok catalog) {runs : List (Run α)} {groups : List (RunGroup α)}
    (h : aggregate catalog runs = .ok groups) {g : RunGroup α} (hg : g ∈ groups) (key : String) :
    g.stats.contains key = true ↔ isStatisticKey key = true := by
  rw [(describes_of_aggregate h hg).2, describeRuns_contains, isStatisticKey_iff]
  rw [aggregationCatalog_eq] at hcatalog
  cases hcatalog
  rw [show aggregationMetricNames = (aggregationMetrics : List (Metric (Run α) α)).map (·.name)
    from rfl]
  simp only [List.mem_map, exists_exists_and_eq_and]

/-! ### Every path -/

/-- **What is said about the numeric field at a path is what records have there.** A text writes
a path unless it has a gap, and it writes the path whose segments it joins by points. -/
theorem hasField_agrees_fieldValue {catalog : Catalog (Run α) α}
    (hcatalog : aggregationCatalog = .ok catalog) :
    (∀ text, FieldPath.ofText? text = none ↔ HasGap '.' text.toList) ∧
      (∀ text p, FieldPath.ofText? text = some p ↔
        p.segments ≠ [] ∧ (∀ s ∈ p.segments, FieldPath.IsSegment s) ∧ p.text = text) ∧
      ∀ text p, FieldPath.ofText? text = some p → Run.Agrees α p ∧
        ∀ runs groups, aggregate catalog runs = .ok groups → ∀ g ∈ groups, g.Agrees p := by
  refine ⟨fun text => FieldPath.ofText?_eq_none_iff,
    fun text p => FieldPath.ofText?_eq_some_iff, ?_⟩
  intro text p hp
  refine ⟨Run.agrees hp, ?_⟩
  intro runs groups hgroups g hg
  exact RunGroup.agrees (contains_stats_of_aggregate hcatalog hgroups hg) hp

/-- The catalog of the metrics that are aggregated. -/
def standardCatalog : Catalog (Run Binary64) Binary64 :=
  ⟨aggregationMetrics, aggregationMetrics_distinct⟩

theorem hasField_agrees_fieldValue_mixedRuns :
    FieldPath.ofText? "l_duration_mean_upper" = some ⟨["l_duration_mean_upper"]⟩ ∧
      ∃ groups, aggregate standardCatalog mixedRuns = .ok groups ∧
        ∀ g ∈ groups, ∃ value, g.stats.get? "l_duration_mean_upper" = some value ∧
          Measured.fieldValue g ⟨["l_duration_mean_upper"]⟩ = value := by
  have hpath : FieldPath.ofText? "l_duration_mean_upper" = some ⟨["l_duration_mean_upper"]⟩ := by
    decide
  obtain ⟨-, -, hread⟩ :=
    @hasField_agrees_fieldValue Binary64 _ standardCatalog aggregationCatalog_eq
  obtain ⟨groups, hgroups⟩ := exists_aggregate_iff.mpr complete_mixedRuns
  refine ⟨hpath, groups, hgroups, ?_⟩
  intro g hg
  have hagrees := (hread _ _ hpath).2 mixedRuns groups hgroups g hg
  rcases hagrees.present (by decide) with ⟨hfixed, -⟩ | hstatistic
  · exact absurd hfixed (by decide)
  · exact hstatistic

end RunCompare
