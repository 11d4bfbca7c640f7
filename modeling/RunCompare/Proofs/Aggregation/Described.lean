/-
No statistic of an aggregated group is missing.

A run that takes part in an aggregation is complete, so each of the metrics has a
value of it, and a series that is not empty is described.  Every group therefore
has all its statistics, whatever its size, with means and medians inside the range
of the values that its runs have (`RunGroup.Described`).

The mean duration is one of them.  A file that is measured once on each side then
lacks a speedup only because a mean duration is not above zero, and these are the
files that a comparison counts as undefined (`undefined_eq_card`).
-/
import RunCompare.Proofs.Comparison.Direction
import RunCompare.Proofs.Metric.Fields
import RunCompare.Proofs.Metric.Measures
import RunCompare.Proofs.Stats.Range

namespace RunCompare

open Scalar Stats

/-! ### Files without a speedup -/

/-- A configuration has a mean duration of the file that is not above zero. -/
def StandsStill (groups : List (RunGroup ℚ)) (file config : String) : Prop :=
  ∃ duration, meanIn groups file config = some duration ∧ duration ≤ 0

instance (groups : List (RunGroup ℚ)) (file config : String) :
    Decidable (StandsStill groups file config) :=
  decidable_of_iff ((meanIn groups file config).any (fun d => decide (d ≤ 0)) = true) (by
    simp [StandsStill, Option.any_eq_true])

/-- The files that are measured once on each side, with a mean duration that is not above zero. -/
def unracedFiles (pair : ConfigPair) (groups : List (RunGroup ℚ)) : Finset String :=
  (pairedFiles pair groups).filter fun file =>
    StandsStill groups file pair.first ∨ StandsStill groups file pair.second

section

variable {pair : ConfigPair} {groups : List (RunGroup ℚ)} {file : String}

theorem mem_unracedFiles : file ∈ unracedFiles pair groups ↔ ∃ f, Pairs pair groups file f ∧
    (StandsStill groups file pair.baseline ∨ StandsStill groups file pair.variant) := by
  unfold unracedFiles
  rw [Finset.mem_filter, mem_pairedFiles, exists_and_right]
  refine and_congr_right fun _ => ?_
  rcases pair.sides_cases with ⟨-, hbase, hvariant⟩ | ⟨-, hbase, hvariant⟩
  · rw [hbase, hvariant]
  · rw [hbase, hvariant, or_comm]

/-- Without groups on a side no file is paired. -/
theorem pairedFiles_of_isEmpty (h : ((Comparison.ofConfig pair.first groups).isEmpty
    || (Comparison.ofConfig pair.second groups).isEmpty) = true) : pairedFiles pair groups = ∅ := by
  have hside : ∀ file config, (inFile groups file config).length = 1 →
      (Comparison.ofConfig config groups).isEmpty = false := by
    intro file config hone
    obtain ⟨g, hg⟩ := List.length_eq_one_iff.mp hone
    obtain ⟨hmem, hconfig, -⟩ := mem_inFile.mp (hg ▸ List.mem_singleton_self g)
    exact isEmpty_ofConfig.mpr ⟨g, hmem, hconfig⟩
  refine Finset.filter_eq_empty_iff.mpr fun file _ ⟨hfirst, hsecond⟩ => ?_
  rw [hside file _ hfirst, hside file _ hsecond] at h
  cases h

variable [OpenFunctions]

/-- A paired file with mean durations has no speedup exactly if one of them is not above zero. -/
theorem Pairs.isNone_point?_iff {f : Comparison.PairedFile ℚ} (hf : Pairs pair groups file f)
    (htimed : ∀ g ∈ groups, ∃ duration, g.durationMean? = some duration) :
    f.point?.isNone = true ↔
      StandsStill groups file pair.baseline ∨ StandsStill groups file pair.variant := by
  obtain ⟨base, hbase⟩ :=
    htimed f.baseline (mem_inFile.mp (hf.baseline ▸ List.mem_singleton_self _)).1
  obtain ⟨variant, hvariant⟩ := htimed f.variant hf.variant_mem.1
  have hmean : meanIn groups file pair.baseline = some base :=
    meanIn_eq_some.mpr ⟨_, hf.baseline, hbase⟩
  have hmean' : meanIn groups file pair.variant = some variant :=
    meanIn_eq_some.mpr ⟨_, hf.variant, hvariant⟩
  have hpoint : f.point?.isSome = true ↔ 0 < base ∧ 0 < variant := by
    rw [Option.isSome_iff_exists]
    simp only [point?_eq_some]
    rw [exists_point_iff]
    constructor
    · rintro ⟨base', variant', hbase', hvariant', -, hpos, hpos'⟩
      cases hbase.symm.trans hbase'
      cases hvariant.symm.trans hvariant'
      rw [zero_eq] at hpos hpos'
      exact ⟨hpos, hpos'⟩
    · rintro ⟨hpos, hpos'⟩
      exact ⟨base, variant, hbase, hvariant, ⟨rfl, rfl⟩, by rwa [zero_eq], by rwa [zero_eq]⟩
  have hbaseline : StandsStill groups file pair.baseline ↔ base ≤ 0 := by
    simp [StandsStill, hmean]
  have hother : StandsStill groups file pair.variant ↔ variant ≤ 0 := by
    simp [StandsStill, hmean']
  rw [hbaseline, hother, ← not_lt, ← not_lt, ← not_and_or, ← hpoint]
  simp

/-- **With mean durations everywhere, the files counted as undefined are those with one that is not
above zero.** -/
theorem undefined_eq_card (htimed : ∀ g ∈ groups, ∃ duration, g.durationMean? = some duration)
    (comparisons : Catalog (RunGroup ℚ) ℚ) (pair : ConfigPair) :
    (compare comparisons groups pair).speedupStats.undefined = (unracedFiles pair groups).card := by
  rw [compare_eq]
  split
  · rename_i hempty
    rw [unracedFiles, pairedFiles_of_isEmpty hempty]
    rfl
  · refine Comparison.countP_pairFiles fun file => ?_
    rw [mem_unracedFiles]
    refine exists_congr fun f => ?_
    rw [pairs_ofPair]
    exact and_congr_right fun hf => (hf.isNone_point?_iff htimed).symm

end

/-! ### Statistics of a group -/

/-- If every item has a value, the values are one for each. -/
theorem map_eq_map_some {β γ : Type} {f : β → Option γ} {l : List β}
    (h : ∀ x ∈ l, ∃ y, f x = some y) : l.map f = (l.filterMap f).map some := by
  rw [List.map_filterMap_some_eq_filter_map_isSome]
  refine (List.filter_eq_self.mpr ?_).symm
  simp only [List.forall_mem_map]
  exact fun x hx => Option.isSome_iff_exists.mpr (h x hx)

section

variable [OpenFunctions]

/-- The statistics of a metric in a group describe the values that it has of some runs, one value
of each run. -/
structure RunGroup.DescribesMetric (g : RunGroup ℚ) (runs : List (Run ℚ)) (m : Metric (Run ℚ) ℚ)
    (xs : List ℚ) (least greatest : ℚ) (d : Description ℚ) : Prop where
  values : runs.map m.value? = xs.map some
  measured : runs.map (Run.measure? m.name) = xs.map some
  /-- The five numbers are found under the names of their fields. -/
  stats : HoldsStatistics g.stats.get? id m.name (some d)
  describes : Describes xs least greatest d

/-- A group has all statistics of some runs, and no other ones. -/
structure RunGroup.Described (catalog : Catalog (Run ℚ) ℚ) (runs : List (Run ℚ))
    (g : RunGroup ℚ) : Prop where
  size : g.stats.size = 40
  keys : ∀ key, g.stats.contains key = true ↔
    ∃ name ∈ aggregationMetricNames, ∃ s : Statistic, key = statisticKey name s.suffix
  present : ∀ key value, g.stats.get? key = some value → value ≠ none
  metrics : ∀ name ∈ aggregationMetricNames, ∃ m ∈ catalog.metrics, m.name = name ∧
    ∃ xs least greatest d, g.DescribesMetric runs m xs least greatest d
  timed : ∃ duration, g.durationMean? = some duration

variable {catalog : Catalog (Run ℚ) ℚ} {runs : List (Run ℚ)} {groups : List (RunGroup ℚ)}
  {g : RunGroup ℚ}

/-- **The statistics of a metric are there, and inside the range of its values.** -/
theorem exists_describesMetric (hsqrt : ∀ x : ℚ, 0 ≤ x → 0 ≤ OpenFunctions.sqrt x)
    (hstats : g.stats = describeRuns catalog runs) (hne : runs ≠ [])
    (hcomplete : ∀ r ∈ runs, r.Complete) {m : Metric (Run ℚ) ℚ} (hm : m ∈ catalog.metrics)
    (hstandard : m ∈ aggregationMetrics) :
    ∃ xs least greatest d, g.DescribesMetric runs m xs least greatest d := by
  have hvalue := fun r hr => Run.value?_of_complete (hcomplete r hr) m hstandard
  have hvalues : runs.map m.value? = (runs.filterMap m.value?).map some :=
    map_eq_map_some fun r hr => (hvalue r hr).imp fun x hx => hx.1
  have hmeasured : runs.map (Run.measure? m.name) = runs.map m.value? := by
    refine List.map_congr_left fun r hr => ?_
    obtain ⟨x, hx, hx'⟩ := hvalue r hr
    rw [hx, hx']
  have hxs : runs.filterMap m.value? ≠ [] := by
    intro hnil
    rw [hnil, List.map_nil, List.map_eq_nil_iff] at hvalues
    exact hne hvalues
  obtain ⟨least, greatest, d, hd, hdescribes⟩ := exists_description hsqrt hxs
  refine ⟨_, least, greatest, d, hvalues, hmeasured.trans hvalues, ?_, hdescribes⟩
  have hheld := describeRuns_holdsStatistics catalog runs hm
  rwa [← hstats, hd] at hheld

/-- **With the standard catalog every group has all its statistics.** -/
theorem described_of_aggregate (hsqrt : ∀ x : ℚ, 0 ≤ x → 0 ≤ OpenFunctions.sqrt x)
    (hcatalog : aggregationCatalog = .ok catalog) (h : aggregate catalog runs = .ok groups)
    (hg : g ∈ groups) : g.Described catalog (itemsWith Run.key runs g.key) := by
  have hkeys := fun key => (contains_stats_of_aggregate hcatalog h hg key).trans isStatisticKey_iff
  rw [aggregationCatalog_eq] at hcatalog
  cases hcatalog
  obtain ⟨-, hstats⟩ := describes_of_aggregate h hg
  have hne : itemsWith Run.key runs g.key ≠ [] := by
    obtain ⟨r, hr, hkey⟩ :=
      List.mem_map.mp ((mem_keys_of_aggregate h).mp (List.mem_map_of_mem hg))
    exact List.ne_nil_of_mem (List.mem_filter.mpr ⟨hr, by simp [hkey]⟩)
  have hcomplete : ∀ r ∈ itemsWith Run.key runs g.key, r.Complete := fun r hr =>
    exists_aggregate_iff.mp ⟨groups, h⟩ r (List.mem_filter.mp hr).1
  have hmetrics : ∀ name ∈ aggregationMetricNames, ∃ m ∈ aggregationMetrics, m.name = name ∧
      ∃ xs least greatest d,
        g.DescribesMetric (itemsWith Run.key runs g.key) m xs least greatest d := by
    intro name hname
    rw [show aggregationMetricNames = (aggregationMetrics : List (Metric (Run ℚ) ℚ)).map (·.name)
      from rfl] at hname
    obtain ⟨m, hm, rfl⟩ := List.mem_map.mp hname
    exact ⟨m, hm, rfl, exists_describesMetric hsqrt hstats hne hcomplete hm hm⟩
  refine ⟨?_, hkeys, fun key value hvalue => ?_, hmetrics, ?_⟩
  · rw [hstats, size_describeRuns]
    rfl
  · obtain ⟨name, hname, s, rfl⟩ := (hkeys key).mp (Option.isSome_iff_exists.mpr ⟨value, hvalue⟩)
    obtain ⟨m, -, rfl, xs, least, greatest, d, hd⟩ := hmetrics name hname
    rw [hd.stats.get?_statisticKey s] at hvalue
    cases hvalue
    exact Option.some_ne_none _
  · obtain ⟨m, -, hname, xs, least, greatest, d, hd⟩ := hmetrics "duration" (by decide)
    have hmean := RunGroup.stat?_eq_map_get hd.stats .mean
    rw [hname] at hmean
    exact ⟨d.mean, hmean⟩

/-- **Aggregation leaves out no statistic, and only slow times can leave out a speedup.**

Every group has all statistics of the runs with its key.  A comparison of the groups counts those
files as undefined that are measured once on each side with a mean duration not above zero. -/
theorem aggregate_described (hsqrt : ∀ x : ℚ, 0 ≤ x → 0 ≤ OpenFunctions.sqrt x)
    (hcatalog : aggregationCatalog = .ok catalog) (h : aggregate catalog runs = .ok groups) :
    (∀ g ∈ groups, g.Described catalog (itemsWith Run.key runs g.key)) ∧
    ∀ comparisons pair,
      (compare comparisons groups pair).speedupStats.undefined = (unracedFiles pair groups).card := by
  have hdescribed := fun g hg => described_of_aggregate (g := g) hsqrt hcatalog h hg
  refine ⟨hdescribed, fun comparisons pair => undefined_eq_card (fun g hg => ?_) comparisons pair⟩
  exact (hdescribed g hg).timed

end

/-- Five runs of one group, one of them an outlier, and runs that took no time. -/
def instantRuns : List (Run ℚ) :=
  [{ Run.uniform 0 "Baseline" 70 3 1 with file := "a" },
    { Run.uniform 0 "Fast" 70 0 0 with file := "a" },
    { Run.uniform 0 "Baseline" 70 90 2 with file := "a" },
    { Run.uniform 1 "Fast" 40 7 2 with file := "b" },
    { Run.uniform 0 "Baseline" 70 5 2 with file := "a" },
    { Run.uniform 0 "Baseline" 70 4 3 with file := "a" },
    { Run.uniform 1 "Baseline" 40 6 2 with file := "b" },
    { Run.uniform 0 "Baseline" 70 2 1 with file := "a" }]

theorem aggregate_described_instantRuns :
    letI := OpenFunctions.rational
    (∀ x : ℚ, 0 ≤ x → 0 ≤ OpenFunctions.sqrt x) ∧ ∃ catalog groups,
      aggregationCatalog = .ok catalog ∧ aggregate catalog instantRuns = .ok groups ∧
      (∀ g ∈ groups, g.Described catalog (itemsWith Run.key instantRuns g.key)) ∧
      ∀ comparisons pair, (compare comparisons groups pair).speedupStats.undefined =
        (unracedFiles pair groups).card := by
  let _ : OpenFunctions := OpenFunctions.rational
  have hsqrt : ∀ x : ℚ, 0 ≤ x → 0 ≤ OpenFunctions.sqrt x := fun x _ => Rat.sqrt_nonneg x
  have complete : ∀ r ∈ instantRuns, r.Complete := by
    simp only [instantRuns, List.forall_mem_cons]
    exact ⟨⟨_, rfl⟩, ⟨_, rfl⟩, ⟨_, rfl⟩, ⟨_, rfl⟩, ⟨_, rfl⟩, ⟨_, rfl⟩, ⟨_, rfl⟩, ⟨_, rfl⟩, by simp⟩
  obtain ⟨groups, hok⟩ := exists_aggregate_iff.mpr complete
  exact ⟨hsqrt, _, groups, aggregationCatalog_eq, hok,
    aggregate_described hsqrt aggregationCatalog_eq hok⟩

end RunCompare
