/-
Finding a cell of the pivot table by a label.

A column is found by its label, and of several columns with one label the first is
taken.  The label of a comparison joins the names of its pair, and a name may contain
the text that joins them: `A vs B` against `C` and `A` against `B vs C` have one label.
Nothing that a report says of a pair tells the two columns apart then, and their cells
need not be the same.

What decides is whether a label tells its pair (`LabelsTell`).  If it does, the column
that is found belongs to the same pair, and the comparison of a pair depends on nothing
else.  If it does not, there are runs for which one of the two pairs is shown with the
numbers of the other: three test cases, two of them with the configuration that only
one of the pairs declares first.

A label tells its pair if no name has the word between the names as a word of its own.
-/
import RunCompare.Config.Reader
import RunCompare.Proofs.Binary64.Product
import RunCompare.Proofs.Report.Tables

namespace RunCompare

open Json PivotTable

/-! ### Labels -/

/-- A name in which the word between the names of a label does not stand between blanks. -/
def HasNoJoiningWord (name : String) : Prop := "vs".toList ∉ name.toList.splitOn ' '

/-- Pairs of a list with one label are the same. -/
def LabelsTell (pairs : List ConfigPair) : Prop :=
  ∀ p ∈ pairs, ∀ q ∈ pairs, p.label = q.label → p = q

/-- The words of a label are those of the first name, the joining word and those of the second. -/
theorem ConfigPair.splitOn_label (p : ConfigPair) : p.label.toList.splitOn ' ' =
    p.first.toList.splitOn ' ' ++ "vs".toList :: p.second.toList.splitOn ' ' := by
  have htext : p.label.toList =
      p.first.toList ++ ' ' :: ("vs".toList ++ ' ' :: p.second.toList) := by
    simp [label]
  have hword : "vs".toList.splitOn ' ' = ["vs".toList] := by decide
  rw [htext, List.splitOn_append_cons_self, List.splitOn_append_cons_self, hword,
    List.singleton_append]

/-- The words of a name tell the name. -/
theorem eq_of_splitOn_eq {name name' : String}
    (h : name.toList.splitOn ' ' = name'.toList.splitOn ' ') : name = name' := by
  have hjoined := congrArg (List.intercalate [' ']) h
  rw [List.intercalate_splitOn, List.intercalate_splitOn] at hjoined
  exact String.toList_inj.mp hjoined

/-- **A label tells its pair if one of the pairs with it has no joining word in its names.** -/
theorem ConfigPair.eq_of_label_eq {p q : ConfigPair} (hfirst : HasNoJoiningWord p.first)
    (hsecond : HasNoJoiningWord p.second) (h : p.label = q.label) : p = q := by
  have hwords := q.splitOn_label.symm.trans (congrArg (·.toList.splitOn ' ') h.symm)
  rw [p.splitOn_label] at hwords
  -- The joining word stands at one place of the label of `p` only.
  obtain ⟨hf, -, hs⟩ := (List.append_cons_inj_of_notMem hfirst hsecond).mp hwords.symm
  cases p
  cases q
  rw [ConfigPair.mk.injEq]
  exact ⟨eq_of_splitOn_eq hf, eq_of_splitOn_eq hs⟩

theorem labelsTell_of_words {pairs : List ConfigPair}
    (h : ∀ p ∈ pairs, HasNoJoiningWord p.first ∧ HasNoJoiningWord p.second) : LabelsTell pairs :=
  fun p hp _ _ hlabel => p.eq_of_label_eq (h p hp).1 (h p hp).2 hlabel

/-- A label and its first name tell the second one: different pairs with one label differ in the
first. -/
theorem ConfigPair.first_ne_of_label_eq {p q : ConfigPair} (h : p.label = q.label) (hne : p ≠ q) :
    p.first ≠ q.first := by
  intro hfirst
  have hsecond : p.second = q.second := by
    unfold label at h
    rwa [hfirst, String.append_right_inj] at h
  cases p
  cases q
  exact hne (ConfigPair.mk.injEq .. ▸ ⟨hfirst, hsecond⟩)

/-! ### The column that is found -/

/-- The cells of a report are found by the labels of its comparisons. -/
def Report.FindsCells (r : Report Binary64) : Prop :=
  ∀ (i : Nat) (c : Comparison Binary64), r.comparisons[i]? = some c → ∀ row ∈ r.pivot.rows,
    ∃ cell, row.cells[i]? = some cell ∧ r.pivot.cell? row.name c.pair.label = some cell

/-- A row is found by its name, which no other row has. -/
theorem PivotTable.row?_of_mem {α : Type} {columns : List (String × Json α)} {row : PivotRow α}
    (hrow : row ∈ (ofColumns columns).rows) : (ofColumns columns).row? row.name = some row := by
  have hnames : ((ofColumns columns).rows.map (·.name)).Nodup := by
    rw [names_ofColumns]
    exact KeyMap.nodup_keys _
  obtain ⟨found, hfound⟩ : ∃ found, (ofColumns columns).row? row.name = some found :=
    Option.isSome_iff_exists.mp (List.find?_isSome.mpr ⟨row, hrow, by simp⟩)
  have hmem : found ∈ (ofColumns columns).rows := List.mem_of_find?_eq_some hfound
  have hname : found.name = row.name := by simpa using List.find?_some hfound
  rw [hfound, List.inj_on_of_nodup_map hnames hmem hrow hname]

section

variable {config : Config} {generatedAt : String} {runs : List (Run Binary64)}
  {r : Report Binary64} {i : Nat} {c : Comparison Binary64} {row : PivotRow Binary64}

/-- The catalog of the metrics that are compared. -/
def comparedMetrics : Catalog (RunGroup Binary64) Binary64 :=
  ⟨comparisonMetrics, comparisonMetrics_distinct⟩

/-- The comparison of a report is that of its pair. -/
theorem Report.eq_compare (h : analyze config generatedAt runs = .ok r) (hc : c ∈ r.comparisons) :
    c.pair ∈ config.pairs ∧ c = compare comparedMetrics r.groups c.pair := by
  rw [(Report.of_analyze h).2.1] at hc
  obtain ⟨pair, hpair, rfl⟩ := List.mem_map.mp hc
  rw [pair_compare]
  exact ⟨hpair, rfl⟩

/-- A row has the leaf of a comparison in its column. -/
theorem Report.cells_of_analyze (h : analyze config generatedAt runs = .ok r)
    (hi : r.comparisons[i]? = some c) (hrow : row ∈ r.pivot.rows) :
    row.cells[i]? = some (PivotCell.ofOption ((flatten c.toJson).get? row.name)) := by
  rw [Report.pivot_of_analyze h] at hrow
  rw [getElem?_cells hrow, Report.getElem?_columns hi]
  rfl

/-- **A label finds a column with this label**, which need not be the one that was meant. -/
theorem Report.cell?_label (h : analyze config generatedAt runs = .ok r)
    (hi : r.comparisons[i]? = some c) (hrow : row ∈ r.pivot.rows) :
    ∃ (j : Nat) (c' : Comparison Binary64), r.comparisons[j]? = some c' ∧
      c'.pair.label = c.pair.label ∧
        r.pivot.cell? row.name c.pair.label = row.cells[j]? := by
  have hpivot := Report.pivot_of_analyze h
  have hlabels : r.pivot.columns = r.comparisons.map (·.pair.label) := by
    rw [hpivot]
    exact List.map_map ..
  have hmem : c.pair.label ∈ r.pivot.columns := by
    rw [hlabels]
    exact List.mem_map.mpr ⟨c, List.mem_of_getElem? hi, rfl⟩
  obtain ⟨j, hj⟩ := Option.ne_none_iff_exists'.mp
    (mt List.idxOf?_eq_none_iff.mp (not_not.mpr hmem))
  obtain ⟨hlt, hlabel, -⟩ := List.idxOf?_eq_some_iff.mp hj
  have hat : r.pivot.columns[j]? = some c.pair.label := List.getElem?_eq_some_iff.mpr ⟨hlt, hlabel⟩
  rw [hlabels, List.getElem?_map, Option.map_eq_some_iff] at hat
  obtain ⟨c', hc', hsame⟩ := hat
  have hfound : r.pivot.row? row.name = some row := by
    rw [hpivot] at hrow ⊢
    exact row?_of_mem hrow
  refine ⟨j, c', hc', hsame, ?_⟩
  rw [cell?, hj, hfound]
  rfl

/-- Where a label tells its pair, the column that is found is that of the same comparison. -/
theorem Report.findsCells_of_labelsTell (h : analyze config generatedAt runs = .ok r)
    (htell : LabelsTell config.pairs) : r.FindsCells := by
  intro i c hi row hrow
  obtain ⟨j, c', hj, hlabel, hcell⟩ := Report.cell?_label h hi hrow
  obtain ⟨hpair, hc⟩ := Report.eq_compare h (List.mem_of_getElem? hi)
  obtain ⟨hpair', hc'⟩ := Report.eq_compare h (List.mem_of_getElem? hj)
  have hsame : c' = c := by
    rw [hc', hc, htell _ hpair' _ hpair hlabel]
  rw [hcell, Report.cells_of_analyze h hj hrow, Report.cells_of_analyze h hi hrow, hsame]
  exact ⟨_, rfl, rfl⟩

/-- Where cells are found by labels, comparisons with one label have the same leaves. -/
theorem Report.FindsCells.get?_flatten (hfinds : r.FindsCells)
    (h : analyze config generatedAt runs = .ok r) (hi : r.comparisons[i]? = some c) {j : Nat}
    {c' : Comparison Binary64} (hj : r.comparisons[j]? = some c')
    (hlabel : c.pair.label = c'.pair.label) {name : String} {leaf : Json Binary64}
    (hleaf : (flatten c'.toJson).get? name = some leaf) :
    (flatten c.toJson).get? name = some leaf := by
  have hrow := isSome_row? (Report.getElem?_columns hj) hleaf
  rw [← Report.pivot_of_analyze h] at hrow
  obtain ⟨row, hrow⟩ := Option.isSome_iff_exists.mp hrow
  obtain ⟨hmem, rfl⟩ := row?_eq_some hrow
  obtain ⟨cell, hcell, hfound⟩ := hfinds i c hi row hmem
  obtain ⟨cell', hcell', hfound'⟩ := hfinds j c' hj row hmem
  rw [hlabel, hfound', Option.some_inj] at hfound
  rw [Report.cells_of_analyze h hi hmem, ← hfound, Option.some_inj] at hcell
  rw [Report.cells_of_analyze h hj hmem, hleaf, Option.some_inj] at hcell'
  rw [← PivotCell.ofOption_eq_value, hcell, ← hcell']
  rfl

/-- Where no name has the joining word, every cell is found by the label of its comparison. -/
theorem Report.findsCells_of_words (h : analyze config generatedAt runs = .ok r)
    (hwords : ∀ p ∈ config.pairs, HasNoJoiningWord p.first ∧ HasNoJoiningWord p.second) :
    r.FindsCells :=
  Report.findsCells_of_labelsTell h (labelsTell_of_words hwords)

end

/-! ### Runs that tell two pairs apart -/

/-- The number of similarity checks of a group. -/
def checksMetric : Metric (RunGroup Binary64) Binary64 :=
  ⟨"number_similarity_checks", .field ⟨["diff_summary", "leaves", "similarity_checks"]⟩⟩

theorem checksMetric_mem : checksMetric ∈ comparedMetrics.metrics := by
  simp [comparedMetrics, comparisonMetrics, checksMetric]

theorem isFinite_scalarOfCount (n : UInt64) :
    Scalar.isFinite (scalarOfCount n : Binary64) = true := by
  show (Binary64.ofNat n.toNat).isFinite = true
  rcases Nat.eq_zero_or_pos n.toNat with hzero | hpos
  · rw [hzero]
    decide
  · exact (Binary64.ofNat_isFinite hpos n.toNat_lt).1

/-- Every group has a number of similarity checks. -/
theorem isSome_checks (g : RunGroup Binary64) : (checksMetric.value? g).isSome = true := by
  have hvalue : checksMetric.value? g =
      (some (scalarOfCount g.breakdown.leaves.similarityChecks)).filter Scalar.isFinite := rfl
  rw [hvalue, Option.filter_some, if_pos (isFinite_scalarOfCount _)]
  rfl

/-- The groups of the first side, as far as a comparison has them. -/
theorem exists_first_count (groups : List (RunGroup Binary64)) (pair : ConfigPair) :
    ∃ s, (compare comparedMetrics groups pair).summaries.first.get? checksMetric.name = some s ∧
      s.count ≤ groups.countP (·.config == pair.first) ∧
      ((∃ g ∈ groups, g.config = pair.first) → (∃ g ∈ groups, g.config = pair.second) →
        s.count = groups.countP (·.config == pair.first)) := by
  by_cases hboth : (∃ g ∈ groups, g.config = pair.first) ∧ ∃ g ∈ groups, g.config = pair.second
  · have hcount := summarize_count comparedMetrics groups pair.first checksMetric_mem
    simp only [isSome_checks, Bool.and_true] at hcount
    rw [← ofConfig_ofPair (Or.inl rfl)] at hcount
    obtain ⟨s, hs, hn⟩ := Option.map_eq_some_iff.mp hcount
    rw [compare_eq_ofGroups comparedMetrics hboth.1 hboth.2]
    exact ⟨s, hs, hn.le, fun _ _ => hn⟩
  · have hempty : compare comparedMetrics groups pair = Comparison.empty comparedMetrics pair := by
      rw [compare_eq, if_pos]
      rw [not_and_or, ← isEmpty_ofConfig, ← isEmpty_ofConfig, Bool.not_eq_false,
        Bool.not_eq_false] at hboth
      exact Bool.or_eq_true_iff.mpr hboth
    have hnone : (Stats.Summary.empty : Stats.Summary Binary64).count = 0 :=
      Stats.count_ofSamples []
    rw [hempty]
    exact ⟨_, get?_ofNames comparedMetrics _ checksMetric_mem, hnone ▸ Nat.zero_le _,
      fun hfirst hsecond => absurd ⟨hfirst, hsecond⟩ hboth⟩

/-- The name of the row that counts the groups of the first side. -/
def firstCountName : String := "algo1_stats.number_similarity_checks.count"

/-- The count of a summary is a leaf of the comparison. -/
theorem Comparison.get?_flatten_count {c : Comparison Binary64} (hc : c.toJson.Tabular)
    {s : Stats.Summary Binary64} (hs : c.summaries.first.get? checksMetric.name = some s) :
    (flatten c.toJson).get? firstCountName = some (.nat s.count) := by
  have hdistinct : (s.fields.map (·.1)).Nodup := (summary_atoms s).keys ▸ by decide
  have hcount : LeafAt s.toJson ["count"] (.nat s.count) :=
    (leafAt_object_cons hdistinct (by simp [Stats.Summary.fields])).mpr
      (.here (isAtom_nat _).1 (isAtom_nat _).2)
  have hleaf : LeafAt c.toJson ["algo1_stats", checksMetric.name, "count"] (.nat s.count) := by
    refine (leafAt_object_cons c.fields_distinct (v := ofMap (c.summaries.first.map
      Stats.Summary.toJson)) ?_).mpr (leafAt_ofMap.mpr ⟨_, _, _, rfl, ?_, hcount⟩)
    · simp [Comparison.fields]
    · rw [KeyMap.get?_map, hs]
      rfl
  have hname : rowName ["algo1_stats", checksMetric.name, "count"] = firstCountName := by decide
  exact (get?_flatten hc.distinct hc.undotted).mpr ⟨_, ⟨hleaf, _, _, rfl, by decide⟩, hname⟩

/-- A configured pair has a column with a count of the groups of its first side. -/
theorem Report.exists_count {config : Config} {generatedAt : String}
    {runs : List (Run Binary64)} {r : Report Binary64}
    (h : analyze config generatedAt runs = .ok r) {pair : ConfigPair}
    (hpair : pair ∈ config.pairs) :
    ∃ (i n : Nat) (c : Comparison Binary64), r.comparisons[i]? = some c ∧ c.pair = pair ∧
      (flatten c.toJson).get? firstCountName = some (.nat n) ∧
      n ≤ r.groups.countP (·.config == pair.first) ∧
      ((∃ g ∈ r.groups, g.config = pair.first) → (∃ g ∈ r.groups, g.config = pair.second) →
        n = r.groups.countP (·.config == pair.first)) := by
  have hmem : compare comparedMetrics r.groups pair ∈ r.comparisons := by
    rw [(Report.of_analyze h).2.1]
    exact List.mem_map.mpr ⟨pair, hpair, rfl⟩
  obtain ⟨i, hi⟩ := List.mem_iff_getElem?.mp hmem
  obtain ⟨s, hs, hle, heq⟩ := exists_first_count r.groups pair
  exact ⟨i, s.count, _, hi, pair_compare _ _ _,
    Comparison.get?_flatten_count (Report.tabular_of_analyze h hmem) hs, hle, heq⟩

/-- Two test cases of one configuration and one of another, or all three of one. -/
def tellingRuns (a b : String) : List (Run Binary64) :=
  [Run.uniform 0 a 1 Scalar.one Scalar.one, Run.uniform 1 a 1 Scalar.one Scalar.one,
    Run.uniform 2 b 1 Scalar.one Scalar.one]

/-- With one run for each group, a configuration has as many groups as runs. -/
theorem countP_of_aggregate {α : Type} [Scalar α] {catalog : Catalog (Run α) α}
    {runs : List (Run α)} {groups : List (RunGroup α)}
    (h : aggregate catalog runs = .ok groups) (hkeys : (runs.map Run.key).Nodup) (config : String) :
    groups.countP (·.config == config) = runs.countP (·.config == config) := by
  have hperm : (groups.map RunGroup.key).Perm (runs.map Run.key) :=
    (List.perm_ext_iff_of_nodup (distinct_of_aggregate h) hkeys).mpr fun _ =>
      mem_keys_of_aggregate h
  have hcount := hperm.countP_eq (fun k : UInt64 × String => k.2 == config)
  rwa [List.countP_map, List.countP_map] at hcount

/-- What the groups of these runs are: at least two of the first configuration, one or more of the
second and at most one of any other. -/
theorem exists_groups_tellingRuns (config : Config) (generatedAt a b : String) :
    ∃ r, analyze config generatedAt (tellingRuns a b) = .ok r ∧
      2 ≤ r.groups.countP (·.config == a) ∧
      (∃ g ∈ r.groups, g.config = a) ∧ (∃ g ∈ r.groups, g.config = b) ∧
      ∀ other, other ≠ a → r.groups.countP (·.config == other) ≤ 1 := by
  have hcomplete : ∀ run ∈ tellingRuns a b, run.Complete := by
    simp only [tellingRuns, List.forall_mem_cons]
    exact ⟨Run.complete_uniform .., Run.complete_uniform .., Run.complete_uniform ..,
      List.forall_mem_nil _⟩
  obtain ⟨r, hr⟩ := exists_analyze config generatedAt hcomplete
  have hkeys : ((tellingRuns a b).map Run.key).Nodup := by
    simp [tellingRuns, Run.key, Run.uniform]
  have hcount := countP_of_aggregate (Report.of_analyze hr).1 hkeys
  have hmem : ∀ config, 0 < (tellingRuns a b).countP (·.config == config) →
      ∃ g ∈ r.groups, g.config = config := by
    intro config hpos
    rw [← hcount] at hpos
    obtain ⟨g, hg, hconfig⟩ := List.countP_pos_iff.mp hpos
    exact ⟨g, hg, by simpa using hconfig⟩
  refine ⟨r, hr, ?_, hmem a ?_, hmem b ?_, fun other hother => ?_⟩
  · rw [hcount]
    simp [tellingRuns, Run.uniform]
  · simp [tellingRuns, Run.uniform, List.countP_cons]
  · simp [tellingRuns, Run.uniform, List.countP_cons]
  · rw [hcount]
    simp only [tellingRuns, Run.uniform, List.countP_cons, List.countP_nil, beq_iff_eq,
      hother.symm, if_false]
    split <;> omega

/-- **Two pairs with one label are shown with one of them in the place of the other.** -/
theorem exists_not_findsCells (config : Config) {p q : ConfigPair} (hp : p ∈ config.pairs)
    (hq : q ∈ config.pairs) (hlabel : p.label = q.label) (hne : p ≠ q) (generatedAt : String) :
    ∃ runs r, analyze config generatedAt runs = .ok r ∧ ¬ r.FindsCells := by
  obtain ⟨r, hr, htwo, hfirst, hsecond, hfew⟩ :=
    exists_groups_tellingRuns config generatedAt q.first q.second
  refine ⟨_, r, hr, fun hfinds => ?_⟩
  -- The one pair counts at least two groups on its first side, the other at most one.
  have hone := hfew p.first (ConfigPair.first_ne_of_label_eq hlabel hne)
  obtain ⟨i, m, c, hi, rfl, hm, hle, -⟩ := Report.exists_count hr hp
  obtain ⟨j, n, c', hj, rfl, hn, -, heq⟩ := Report.exists_count hr hq
  have hsame : m = n := by
    rw [hfinds.get?_flatten hr hi hj hlabel hn, Option.some_inj] at hm
    simpa [Json.nat] using hm.symm
  have hcount := heq hfirst hsecond
  omega

/--
**The cells of every report are found by their labels exactly if no two pairs share one.**

Nothing is asked of the runs: they may be any that the analysis accepts.
-/
theorem findsCells_iff (config : Config) :
    (∀ (generatedAt : String) (runs : List (Run Binary64)) (r : Report Binary64),
      analyze config generatedAt runs = .ok r → r.FindsCells) ↔ LabelsTell config.pairs := by
  constructor
  · intro h p hp q hq hlabel
    by_contra hne
    obtain ⟨runs, r, hr, hnot⟩ := exists_not_findsCells config hp hq hlabel hne ""
    exact hnot (h "" runs r hr)
  · intro htell generatedAt runs r hr
    exact Report.findsCells_of_labelsTell hr htell

/-- Two comparisons whose names are joined to one label. -/
def collidingText : String :=
  "[analysis]\nname = \"R\"\n\n[[comparisons]]\nbaseline = \"A vs B\"\nvariant = \"C\"\n\n"
    ++ "[[comparisons]]\nbaseline = \"A\"\nvariant = \"B vs C\"\n"

/-- What is read from them. -/
def collidingConfig : Config where
  name := "R"
  input := none
  skipHeader := true
  pairs := [⟨"A vs B", "C"⟩, ⟨"A", "B vs C"⟩]

/-- **An accepted configuration can have two comparisons with one label**, and then there are runs
for which one of them is found in the place of the other. -/
theorem ofText_collidingText : Config.ofText collidingText = .ok collidingConfig ∧
    ¬ ∀ (generatedAt : String) (runs : List (Run Binary64)) (r : Report Binary64),
      analyze collidingConfig generatedAt runs = .ok r → r.FindsCells := by
  refine ⟨by decide +kernel, fun h => ?_⟩
  obtain ⟨runs, r, hr, hnot⟩ := exists_not_findsCells collidingConfig (p := ⟨"A vs B", "C"⟩)
    (q := ⟨"A", "B vs C"⟩) (by decide) (by decide) (by decide) (by decide) ""
  exact hnot (h "" runs r hr)

end RunCompare
