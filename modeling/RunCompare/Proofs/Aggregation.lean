/-
What aggregation makes of complete runs.

`Aggregates` says it in terms of the runs alone: one group for each test case
and configuration that occur together, holding the number of its runs, the
fields of the first of them and the statistics of all of them, in falling order
of node counts.  `aggregate_complete_runs` is that this is what comes out.

The statistics are said number by number: of the runs of the group those count for
which the metric gives a finite number (`Metric.Gives`), and these samples are
described without their outliers.

Grouping happens twice, by test case and then by configuration.  `groupRuns`
is shown to be one grouping by both at once (`groupRuns_members`), listed in the
order that `Precedes` names, and the stable sort keeps that order among groups
of one node count.
-/
import RunCompare.Aggregation
import RunCompare.Binary64.Scalar
import RunCompare.Proofs.Grouping
import RunCompare.Proofs.KeyMap
import RunCompare.Proofs.Pointwise
import RunCompare.Proofs.Run.Breakdown
import RunCompare.Proofs.Stats.Description
import Mathlib.Algebra.GroupWithZero.Nat
import Mathlib.Data.List.Perm.Basic

namespace RunCompare

open Stats

variable {α : Type}

/-! ### Runs and groups of runs -/

/-- What runs are grouped by: the test case and the configuration. -/
def Run.key (r : Run α) : UInt64 × String := (r.testCase, r.config)

/-- The test case and the configuration of a group of runs. -/
def RunGroup.key (g : RunGroup α) : UInt64 × String := (g.testCase, g.config)

/-- Nothing is missing from the report of a run. -/
def Run.Complete (r : Run α) : Prop := ∃ b, r.breakdown = .ok b

/-- A group carries the fields of a run. -/
structure RunGroup.Represents (g : RunGroup α) (r : Run α) : Prop where
  file : g.file = r.file
  config : g.config = r.config
  testCase : g.testCase = r.testCase
  nodeCount : g.nodeCount = r.nodeCount
  loc : g.loc = r.loc
  durationSecs : g.durationSecs = r.durationSecs
  breakdown : r.breakdown = .ok g.breakdown
  /-- The breakdown has all that the run reports, and nothing else. -/
  report : r.report = some g.breakdown.report
  similarityChecks : g.similarityChecks = g.breakdown.leaves.similarityChecks
  /-- Unknown fields are carried along unless they are named like a computed one. -/
  others : ∀ key, g.others.get? key =
    if g.stats.contains key = true ∨ key ∈ computedKeys then none else r.others.get? key

/-- The order of groups before they are sorted: test cases by first appearance, and the
configurations of one test case by first appearance inside it. -/
def Precedes (runs : List (Run α)) (a b : UInt64 × String) : Prop :=
  firstAt Run.testCase runs a.1 < firstAt Run.testCase runs b.1 ∨
    a.1 = b.1 ∧ firstAt Run.config (itemsWith Run.testCase runs a.1) a.2 <
      firstAt Run.config (itemsWith Run.testCase runs a.1) b.2

/-! ### The two levels of grouping are one -/

namespace Group

/-- The test case and the configuration of a group of runs. -/
def runKey (g : Group String (Run α)) : UInt64 × String := (g.first.testCase, g.key)

end Group

theorem itemsWith_key (runs : List (Run α)) (t : UInt64) (c : String) :
    itemsWith Run.config (itemsWith Run.testCase runs t) c = itemsWith Run.key runs (t, c) := by
  unfold itemsWith
  rw [List.filter_filter]
  refine List.filter_congr fun r _ => ?_
  simp [Run.key, Prod.ext_iff, and_comm]

/-- A group inside a test case has the key of the test case and its own. -/
theorem runKey_of_mem {runs : List (Run α)} {t : Group UInt64 (Run α)}
    (ht : t ∈ groupBy Run.testCase runs) {g : Group String (Run α)}
    (hg : g ∈ groupBy Run.config t.members) : g.runKey = (t.key, g.key) := by
  obtain ⟨hfirst, -⟩ := (grouped_groupBy Run.config t.members).first_mem hg
  rw [(grouped_groupBy Run.testCase runs).members t ht] at hfirst
  have htest : g.first.testCase = t.key := by simpa using (List.mem_filter.mp hfirst).2
  rw [Group.runKey, htest]

/-- A group holds the runs with its test case and configuration, in order. -/
theorem groupRuns_members {runs : List (Run α)} {g : Group String (Run α)}
    (h : g ∈ groupRuns runs) : g.members = itemsWith Run.key runs g.runKey := by
  obtain ⟨t, ht, hg⟩ := List.mem_flatMap.mp h
  rw [runKey_of_mem ht hg, ← itemsWith_key, ← (grouped_groupBy Run.testCase runs).members t ht]
  exact (grouped_groupBy Run.config t.members).members g hg

theorem groupRuns_first {runs : List (Run α)} {g : Group String (Run α)}
    (h : g ∈ groupRuns runs) : g.first ∈ runs ∧ g.first.key = g.runKey := by
  have hmem : g.first ∈ itemsWith Run.key runs g.runKey := by
    rw [← groupRuns_members h]
    exact List.mem_cons_self
  obtain ⟨hrun, hkey⟩ := List.mem_filter.mp hmem
  exact ⟨hrun, by simpa using hkey⟩

theorem groupRuns_covers {runs : List (Run α)} {r : Run α} (hr : r ∈ runs) :
    r.key ∈ (groupRuns runs).map Group.runKey := by
  obtain ⟨t, ht, htkey⟩ := List.mem_map.mp ((grouped_groupBy Run.testCase runs).covers r hr)
  have hrt : r ∈ t.members := by
    rw [(grouped_groupBy Run.testCase runs).members t ht]
    exact List.mem_filter.mpr ⟨hr, by simp [htkey]⟩
  obtain ⟨g, hg, hgkey⟩ := List.mem_map.mp ((grouped_groupBy Run.config t.members).covers r hrt)
  refine List.mem_map.mpr ⟨g, List.mem_flatMap.mpr ⟨t, ht, hg⟩, ?_⟩
  rw [runKey_of_mem ht hg, htkey, hgkey, Run.key]

/-- **Groups are listed by first appearance, level by level.** -/
theorem groupRuns_ordered (runs : List (Run α)) :
    (groupRuns runs).Pairwise fun g h => Precedes runs g.runKey h.runKey := by
  refine List.pairwise_flatMap.mpr ⟨fun t ht => ?_, ?_⟩
  · refine (grouped_groupBy Run.config t.members).ordered.imp_of_mem fun {g h} hg hh hlt => ?_
    rw [(grouped_groupBy Run.testCase runs).members t ht] at hlt
    rw [runKey_of_mem ht hg, runKey_of_mem ht hh]
    exact Or.inr ⟨rfl, hlt⟩
  · refine (grouped_groupBy Run.testCase runs).ordered.imp_of_mem fun {t u} ht hu hlt => ?_
    intro g hg h hh
    rw [runKey_of_mem ht hg, runKey_of_mem hu hh]
    exact Or.inl hlt

theorem groupRuns_distinct (runs : List (Run α)) :
    ((groupRuns runs).map Group.runKey).Nodup := by
  rw [List.Nodup, List.pairwise_map]
  refine (groupRuns_ordered runs).imp fun h heq => ?_
  rcases h with hlt | ⟨-, hlt⟩
  · rw [heq] at hlt
    exact Nat.lt_irrefl _ hlt
  · rw [heq] at hlt
    exact Nat.lt_irrefl _ hlt

/-- The two levels of grouping lose no run and repeat none. -/
theorem groupRuns_perm (runs : List (Run α)) :
    ((groupRuns runs).flatMap Group.members).Perm runs := by
  have hlevel : (groupRuns runs).flatMap Group.members = (groupBy Run.testCase runs).flatMap
      fun t => (groupBy Run.config t.members).flatMap Group.members :=
    List.flatMap_assoc
  rw [hlevel]
  refine (List.Perm.flatMap_left _ fun t _ => ?_).trans (members_groupBy_perm Run.testCase runs)
  exact members_groupBy_perm Run.config t.members

/-! ### The sort -/

/-- Groups come out in falling order of their node counts, those of one count as they went in. -/
theorem byFallingNodeCount_ordered {R : RunGroup α → RunGroup α → Prop}
    {groups : List (RunGroup α)} (h : groups.Pairwise R) :
    (byFallingNodeCount groups).Pairwise fun g g' => g'.nodeCount < g.nodeCount ∨
      g'.nodeCount = g.nodeCount ∧ R g g' := by
  have trans : ∀ a b c : RunGroup α, decide (b.nodeCount ≤ a.nodeCount) →
      decide (c.nodeCount ≤ b.nodeCount) → decide (c.nodeCount ≤ a.nodeCount) := by
    simp only [decide_eq_true_eq]
    exact fun a b c hab hbc => UInt64.le_trans hbc hab
  have total : ∀ a b : RunGroup α,
      (decide (b.nodeCount ≤ a.nodeCount) || decide (a.nodeCount ≤ b.nodeCount)) = true := by
    simp only [Bool.or_eq_true, decide_eq_true_eq]
    exact fun a b => UInt64.le_total _ _
  refine List.pairwise_iff_forall_sublist.mpr fun {g g'} hsub => ?_
  have hle : g'.nodeCount ≤ g.nodeCount := by
    simpa using List.pairwise_iff_forall_sublist.mp (List.pairwise_mergeSort trans total groups) hsub
  rcases UInt64.lt_or_eq_of_le hle with hlt | heq
  · exact Or.inl hlt
  · refine Or.inr ⟨heq, List.pairwise_iff_forall_sublist.mp h ?_⟩
    -- Both lie among the groups of their node count, which the sort does not move.
    have hlevel := filter_mergeSort trans total (p := fun a => decide (a.nodeCount = g.nodeCount))
      (fun a b ha hb => by simp_all) groups
    have hpair : [g, g'].Sublist (groups.filter fun a => decide (a.nodeCount = g.nodeCount)) := by
      rw [← hlevel, ← byFallingNodeCount]
      simpa [heq] using hsub.filter fun a => decide (a.nodeCount = g.nodeCount)
    exact hpair.trans List.filter_sublist

/-! ### What a group of runs says about them -/

/-- A complete run that spends one time, in milliseconds, in each part of its phases. -/
def Run.uniform (testCase : UInt64) (config : String) (nodeCount : UInt64) (secs time : α) :
    Run α where
  file := config
  config := config
  testCase := testCase
  nodeCount := nodeCount
  loc := nodeCount
  durationSecs := secs
  report := some ⟨some ⟨some time, some 2, some 1, some time, some 1, some 8, KeyMap.empty⟩,
    some ⟨some time, some time, KeyMap.empty⟩, KeyMap.empty⟩
  others := KeyMap.empty

theorem Run.complete_uniform (testCase : UInt64) (config : String) (nodeCount : UInt64)
    (secs time : α) : (uniform testCase config nodeCount secs time).Complete :=
  ⟨_, rfl⟩

theorem validate_of_complete {r : Run α} (h : r.Complete) : r.validate = .ok () := by
  obtain ⟨b, hb⟩ := h
  rw [Run.validate, Run.missing?, hb]

theorem validateAll_of_complete {runs : List (Run α)} (h : ∀ r ∈ runs, r.Complete) :
    runs.forM Run.validate = .ok () := by
  induction runs with
  | nil => rfl
  | cons r rest ih =>
      rw [List.forM_eq_forM, List.forM_cons, validate_of_complete (h r List.mem_cons_self)]
      exact ih fun r' hr' => h r' (List.mem_cons_of_mem _ hr')

theorem requireBreakdown_of_complete {r : Run α} (h : r.Complete) :
    ∃ b, r.breakdown = .ok b ∧ r.requireBreakdown = .ok b := by
  obtain ⟨b, hb⟩ := h
  refine ⟨b, hb, ?_⟩
  rw [Run.requireBreakdown, hb]
  rfl

theorem passedThrough_get? (stats : KeyMap (Option α)) (r : Run α) (key : String) :
    (passedThrough stats r).get? key =
      if stats.contains key = true ∨ key ∈ computedKeys then none else r.others.get? key := by
  unfold passedThrough
  rw [KeyMap.get?_filter]
  by_cases h : stats.contains key = true ∨ key ∈ computedKeys
  · rw [if_pos h, Option.filter_eq_none_iff]
    intro v _
    rcases h with h | h
    · simp [h]
    · simp [h]
  · rw [if_neg h]
    rw [not_or] at h
    cases r.others.get? key with
    | none => rfl
    | some v => simp [Option.filter, h.1, h.2]

/-- Asked for a statistic of a metric, a group gives the one that it holds. -/
theorem RunGroup.stat?_eq_map_get {g : RunGroup α} {metric : String}
    {description : Option (Description α)}
    (h : HoldsStatistics g.stats.get? id metric description) (s : Statistic) :
    g.stat? metric s.suffix = description.map (·.get s) := by
  rw [stat?, statAt?, h.get?_statisticKey s]
  rfl

section

variable {τ : Type} [Measured τ α] [Scalar α]

/-- A metric gives a number for a record: a finite one, by its path or by its function. -/
inductive Metric.Gives (m : Metric τ α) (record : τ) (x : α) : Prop
  | field {path : FieldPath} (source : m.source = .field path)
      (value : Measured.fieldValue record path = some x) (finite : Scalar.isFinite x = true)
  | computed {value? : τ → Option α} (source : m.source = .computed value?)
      (value : value? record = some x) (finite : Scalar.isFinite x = true)

theorem Metric.value?_eq_some_iff {m : Metric τ α} {record : τ} {x : α} :
    m.value? record = some x ↔ m.Gives record x := by
  obtain ⟨name, source⟩ := m
  unfold Metric.value?
  rw [Option.filter_eq_some_iff]
  constructor
  · rintro ⟨hvalue, hfinite⟩
    cases source with
    | field path => exact .field rfl hvalue hfinite
    | computed value? => exact .computed rfl hvalue hfinite
  · rintro (⟨rfl, hvalue, hfinite⟩ | ⟨rfl, hvalue, hfinite⟩)
    · exact ⟨hvalue, hfinite⟩
    · exact ⟨hvalue, hfinite⟩

end

variable [Scalar α]

/-- A group summarizes runs with the metrics of a catalog. -/
structure RunGroup.Summarizes (catalog : Catalog (Run α) α) (runs : List (Run α))
    (g : RunGroup α) : Prop where
  /-- The group carries the fields of the first run. -/
  first : ∃ r, runs.head? = some r ∧ g.Represents r
  /-- The group counts the runs. -/
  count : g.count = runs.length
  /-- A metric has a sample of a run exactly if it gives a finite number for it. -/
  samples : ∀ m ∈ catalog.metrics, ∀ r ∈ runs, ∀ x, m.value? r = some x ↔ m.Gives r x
  /-- The samples are described by what is left of them without their outliers. -/
  described : ∀ m ∈ catalog.metrics, ∀ d,
    Description.ofSamples (runs.filterMap m.value?) = some d ↔
      d.IsOf (withoutOutliers (runs.filterMap m.value?))
  /-- The statistics of a metric are those of its samples in the order of the runs. -/
  stats : ∀ m ∈ catalog.metrics, HoldsStatistics g.stats.get? id m.name
    (Description.ofSamples (runs.filterMap m.value?))
  /-- A metric without samples has its statistics without values. -/
  absent : ∀ m ∈ catalog.metrics, runs.filterMap m.value? = [] →
    HoldsStatistics g.stats.get? id m.name none
  /-- There are no other statistics. -/
  keys : ∀ key, g.stats.contains key = true ↔
    ∃ m ∈ catalog.metrics, ∃ s : Statistic, key = statisticKey m.name s.suffix

/-- The groups are what a list of runs aggregates to. -/
structure Aggregates (catalog : Catalog (Run α) α) (runs : List (Run α))
    (groups : List (RunGroup α)) : Prop where
  /-- No test case and configuration have two groups. -/
  distinct : (groups.map RunGroup.key).Nodup
  /-- The groups are those of the test cases and configurations that occur together. -/
  keys : ∀ k, k ∈ groups.map RunGroup.key ↔ k ∈ runs.map Run.key
  /-- Each group summarizes the runs of its test case and configuration. -/
  summarizes : ∀ g ∈ groups, g.Summarizes catalog (itemsWith Run.key runs g.key)
  /-- Every run is counted once. -/
  counts : (groups.map (·.count)).sum = runs.length
  /-- Node counts fall, and groups of one node count keep the order of grouping. -/
  ordered : groups.Pairwise fun g h => h.nodeCount < g.nodeCount ∨
    h.nodeCount = g.nodeCount ∧ Precedes runs g.key h.key

/-! ### One group -/

/-- The statistics are those of the metrics, entry by entry. -/
theorem describeRuns_eq (catalog : Catalog (Run α) α) (runs : List (Run α)) :
    describeRuns catalog runs = KeyMap.ofList (catalog.metrics.flatMap fun m =>
      statisticFields m.name (Description.ofSamples (m.values runs))) := by
  unfold describeRuns KeyMap.ofList KeyMap.insertAll
  rw [List.foldl_flatMap]

/-- The statistics of each metric are found under their names. -/
theorem describeRuns_holdsStatistics (catalog : Catalog (Run α) α) (runs : List (Run α))
    {m : Metric (Run α) α} (hm : m ∈ catalog.metrics) :
    HoldsStatistics (describeRuns catalog runs).get? id m.name
      (Description.ofSamples (runs.filterMap m.value?)) := by
  refine holdsStatistics_iff.mpr fun field hfield => ?_
  rw [describeRuns_eq]
  refine KeyMap.get?_ofList_of_mem ?_ (List.mem_flatMap.mpr ⟨m, hm, hfield⟩)
  exact keys_statisticFields_nodup _ catalog.distinct

theorem describeRuns_contains (catalog : Catalog (Run α) α) (runs : List (Run α)) (key : String) :
    (describeRuns catalog runs).contains key = true ↔
      ∃ m ∈ catalog.metrics, ∃ s : Statistic, key = statisticKey m.name s.suffix := by
  rw [describeRuns_eq, KeyMap.contains_ofList, List.map_flatMap, List.mem_flatMap]
  refine exists_congr fun m => and_congr_right fun _ => ?_
  rw [keys_statisticFields, List.mem_map]
  exact exists_congr fun s => ⟨fun h => h.2.symm, fun h => ⟨s.mem_all, h.symm⟩⟩

/-- **A group of complete runs is summarized.** -/
theorem aggregateGroup_of_complete (catalog : Catalog (Run α) α) (g : Group String (Run α))
    (h : ∀ r ∈ g.members, r.Complete) :
    ∃ out, aggregateGroup catalog g = .ok out ∧ out.Summarizes catalog g.members ∧
      out.key = g.first.key := by
  obtain ⟨b, hb, hrequire⟩ := requireBreakdown_of_complete (h g.first List.mem_cons_self)
  unfold aggregateGroup
  rw [validateAll_of_complete h]
  simp only [hrequire]
  have hstats := fun m hm => describeRuns_holdsStatistics catalog g.members (m := m) hm
  refine ⟨_, rfl, ⟨⟨g.first, rfl, ?_⟩, rfl, ?_, ?_, hstats, ?_, ?_⟩, rfl⟩
  · exact ⟨rfl, rfl, rfl, rfl, rfl, rfl, hb, Run.breakdown_eq_ok.mp hb, rfl,
      passedThrough_get? _ g.first⟩
  · exact fun m _ r _ x => Metric.value?_eq_some_iff
  · exact fun m _ d => Description.ofSamples_eq_some_iff
  · intro m hm hnone
    have hheld := hstats m hm
    rwa [hnone, Description.ofSamples_nil] at hheld
  · exact describeRuns_contains catalog g.members

/-! ### All groups -/

/--
**Complete runs aggregate to one group for each test case and configuration.**

Nothing is lost, counted twice or taken from another group, whatever the order in
which the runs of the groups are mixed.
-/
theorem aggregate_complete_runs (catalog : Catalog (Run α) α) (runs : List (Run α))
    (complete : ∀ r ∈ runs, r.Complete) :
    ∃ groups, aggregate catalog runs = .ok groups ∧ Aggregates catalog runs groups := by
  have hsub : ∀ g ∈ groupRuns runs, ∀ r ∈ g.members, r ∈ runs := by
    intro g hg r hr
    rw [groupRuns_members hg] at hr
    exact (List.mem_filter.mp hr).1
  have hpass : ∀ g ∈ groupRuns runs, ∃ out, aggregateGroup catalog g = .ok out ∧
      (g ∈ groupRuns runs ∧ out.Summarizes catalog g.members ∧ out.key = g.first.key) := by
    intro g hg
    obtain ⟨out, hout, hsum, hkey⟩ :=
      aggregateGroup_of_complete catalog g fun r hr => complete r (hsub g hg r hr)
    exact ⟨out, hout, hg, hsum, hkey⟩
  obtain ⟨outs, houts, hrel⟩ := mapM_ok_of_forall hpass
  have hperm : (byFallingNodeCount outs).Perm outs := List.mergeSort_perm _ _
  have hkeys : outs.map RunGroup.key = (groupRuns runs).map Group.runKey :=
    (map_eq_of_forall₂ hrel fun g out h => by
      rw [h.2.2, (groupRuns_first h.1).2]).symm
  refine ⟨byFallingNodeCount outs, by rw [aggregate, houts]; rfl, ?_, ?_, ?_, ?_, ?_⟩
  · rw [(hperm.map RunGroup.key).nodup_iff, hkeys]
    exact groupRuns_distinct runs
  · intro k
    rw [(hperm.map RunGroup.key).mem_iff, hkeys]
    constructor
    · intro hk
      obtain ⟨g, hg, rfl⟩ := List.mem_map.mp hk
      exact List.mem_map.mpr ⟨g.first, (groupRuns_first hg).1, (groupRuns_first hg).2⟩
    · intro hk
      obtain ⟨r, hr, rfl⟩ := List.mem_map.mp hk
      exact groupRuns_covers hr
  · intro out hout
    obtain ⟨g, -, hg, hsum, hkey⟩ := exists_of_forall₂_of_mem hrel (hperm.mem_iff.mp hout)
    rw [hkey, (groupRuns_first hg).2, ← groupRuns_members hg]
    exact hsum
  · have hcounts : outs.map (·.count) = (groupRuns runs).map fun g => g.members.length :=
      (map_eq_of_forall₂ hrel fun g out h => h.2.1.count.symm).symm
    rw [(hperm.map (·.count)).sum_nat, hcounts, ← List.length_flatMap]
    exact (groupRuns_perm runs).length_eq
  · have hordered : outs.Pairwise fun g h => Precedes runs g.key h.key := by
      rw [← List.pairwise_map (f := RunGroup.key) (R := Precedes runs), hkeys, List.pairwise_map]
      exact groupRuns_ordered runs
    exact byFallingNodeCount_ordered hordered

/-- Runs of three groups, mixed, two of the groups with one node count. -/
def mixedRuns : List (Run Binary64) :=
  [.uniform 1 "Optimized" 40 (.ofNat 3) (.ofNat 1), .uniform 0 "Baseline" 70 (.ofNat 5) (.ofNat 2),
    .uniform 1 "Baseline" 40 (.ofNat 4) (.ofNat 1), .uniform 1 "Optimized" 40 (.ofNat 9) (.ofNat 2)]

theorem complete_mixedRuns : ∀ r ∈ mixedRuns, r.Complete := by
  simp only [mixedRuns, List.forall_mem_cons]
  exact ⟨Run.complete_uniform .., Run.complete_uniform .., Run.complete_uniform ..,
    Run.complete_uniform .., by simp⟩

/-- The wall-clock time as the only metric. -/
def durationCatalog : Catalog (Run Binary64) Binary64 :=
  Catalog.empty.insert (Metric.computed "duration" fun r => some r.durationMs)

theorem aggregate_mixedRuns : (∀ r ∈ mixedRuns, r.Complete) ∧
    ∃ groups, aggregate durationCatalog mixedRuns = .ok groups ∧
      Aggregates durationCatalog mixedRuns groups :=
  ⟨complete_mixedRuns, aggregate_complete_runs durationCatalog mixedRuns complete_mixedRuns⟩

end RunCompare
