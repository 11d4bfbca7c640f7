/-
Statistics that do not get in each other's way.

All statistics of a group are put into one map, metric after metric, under keys
that are made by joining two texts.  A metric may be called anything, `a_mean`
beside `a`, so a later metric could put its statistics in the place of an earlier
one's.  It does not: a key says which metric and which statistic it belongs to
(`statisticKey_eq_iff`), so every field that is put in is still there in the end
(`entries_describeRuns_perm`), and what the map says under the key of a statistic
depends on the metric of that name alone (`get?_describeRuns`).
-/
import RunCompare.Proofs.Aggregation.FlatRecord

namespace RunCompare

open Stats

variable {α : Type}

/-! ### Keys -/

namespace Stats

/-- The suffixes of all statistics. -/
def Statistic.suffixes : List String := all.map suffix

theorem Statistic.mem_suffixes {suffix : String} :
    suffix ∈ suffixes ↔ ∃ s : Statistic, s.suffix = suffix := by
  rw [suffixes, List.mem_map]
  exact exists_congr fun s => and_iff_right s.mem_all

/-- **A key belongs to one metric and one statistic.** -/
theorem statisticKey_eq_iff {metric metric' suffix suffix' : String}
    (hsuffix : suffix ∈ Statistic.suffixes) (hsuffix' : suffix' ∈ Statistic.suffixes) :
    statisticKey metric suffix = statisticKey metric' suffix' ↔
      metric = metric' ∧ suffix = suffix' := by
  obtain ⟨s, rfl⟩ := Statistic.mem_suffixes.mp hsuffix
  obtain ⟨s', rfl⟩ := Statistic.mem_suffixes.mp hsuffix'
  constructor
  · intro h
    obtain ⟨hmetric, rfl⟩ := statisticKey_inj h
    exact ⟨hmetric, rfl⟩
  · rintro ⟨rfl, heq⟩
    rw [heq]

end Stats

/-! ### Metrics by their names -/

namespace Catalog

variable {τ : Type} {catalog : Catalog τ α}

/-- A metric is found under its name, since no metric before it has this name. -/
theorem get?_name {m : Metric τ α} (hm : m ∈ catalog.metrics) : catalog.get? m.name = some m := by
  obtain ⟨before, after, hsplit⟩ := List.append_of_mem hm
  have hdistinct := catalog.distinct
  rw [hsplit, List.map_append, List.map_cons, List.nodup_append] at hdistinct
  refine List.find?_eq_some_iff_append.mpr ⟨by simp, before, after, hsplit, fun m' hm' => ?_⟩
  have hne : m'.name ≠ m.name :=
    hdistinct.2.2 _ (List.mem_map.mpr ⟨m', hm', rfl⟩) _ List.mem_cons_self
  simpa using hne

theorem get?_eq_none {name : String} (h : name ∉ catalog.names) : catalog.get? name = none := by
  refine List.find?_eq_none.mpr fun m hm hname => h ?_
  exact List.mem_map.mpr ⟨m, hm, by simpa using hname⟩

end Catalog

variable [Scalar α]

/-! ### One group -/

section

variable (catalog : Catalog (Run α) α) (runs : List (Run α))

/-- Under the key of a statistic is what the metric of that name gives, if there is one. -/
theorem get?_describeRuns (name : String) (s : Statistic) :
    (describeRuns catalog runs).get? (statisticKey name s.suffix) =
      (catalog.get? name).map fun m =>
        (Description.ofSamples (runs.filterMap m.value?)).map (·.get s) := by
  by_cases hname : name ∈ catalog.names
  · obtain ⟨m, hm, rfl⟩ := List.mem_map.mp hname
    rw [Catalog.get?_name hm]
    exact (describeRuns_holdsStatistics catalog runs hm).get?_statisticKey s
  · -- A key of another metric that ends like this one would have the same name in front.
    rw [Catalog.get?_eq_none hname, Option.map_none, ← Option.not_isSome_iff_eq_none]
    intro hsome
    obtain ⟨m, hm, s', hkey⟩ := (describeRuns_contains catalog runs _).mp hsome
    exact hname (List.mem_map.mpr ⟨m, hm, (statisticKey_inj hkey).1.symm⟩)

/-- A key of the map belongs to one metric of the catalog and to one statistic. -/
theorem describeRuns_contains_iff_existsUnique (key : String) :
    (describeRuns catalog runs).contains key = true ↔
      ∃! p : String × Statistic, p.1 ∈ catalog.names ∧ key = statisticKey p.1 p.2.suffix := by
  rw [describeRuns_contains]
  constructor
  · rintro ⟨m, hm, s, rfl⟩
    refine ⟨(m.name, s), ⟨List.mem_map.mpr ⟨m, hm, rfl⟩, rfl⟩, ?_⟩
    rintro p ⟨-, hkey⟩
    obtain ⟨hname, hs⟩ := statisticKey_inj hkey
    exact Prod.ext hname.symm hs.symm
  · rintro ⟨⟨name, s⟩, ⟨hname, hkey⟩, -⟩
    obtain ⟨m, hm, rfl⟩ := List.mem_map.mp hname
    exact ⟨m, hm, s, hkey⟩

end

/-- Asked for the statistics of a metric, a group gives the five numbers of a description. -/
structure RunGroup.Answers (g : RunGroup α) (metric : String)
    (description : Option (Description α)) : Prop where
  mean : g.stat? metric "mean" = description.map (·.mean)
  median : g.stat? metric "median" = description.map (·.median)
  sd : g.stat? metric "sd" = description.map (·.sd)
  meanUpper : g.stat? metric "mean_upper" = description.map (·.meanUpper)
  meanLower : g.stat? metric "mean_lower" = description.map (·.meanLower)

/-- The statistics of a group of runs: those of every metric of a catalog, side by side. -/
structure RunGroup.StatisticsApart (catalog : Catalog (Run α) α) (runs : List (Run α))
    (g : RunGroup α) : Prop where
  /-- There are five statistics for each metric. -/
  size : g.stats.size = 5 * catalog.size
  /-- They are listed as they were computed, each of them once. -/
  entries : g.stats.entries.Perm (catalog.metrics.flatMap fun m =>
    spelledFields m.name (Description.ofSamples (runs.filterMap m.value?)))
  /-- Each key belongs to one metric and one statistic. -/
  owned : ∀ key, g.stats.contains key = true ↔
    ∃! p : String × Statistic, p.1 ∈ catalog.names ∧ key = statisticKey p.1 p.2.suffix
  /-- Asked for the statistics of a metric, the group gives those computed for this metric; there
  are none under a name that no metric has. -/
  stat : ∀ name, g.Answers name
    ((catalog.get? name).bind fun m => Description.ofSamples (runs.filterMap m.value?))

theorem RunGroup.statisticsApart_of_stats {catalog : Catalog (Run α) α} {runs : List (Run α)}
    {g : RunGroup α} (hstats : g.stats = describeRuns catalog runs) :
    g.StatisticsApart catalog runs := by
  refine ⟨?_, ?_, ?_, fun name => ?_⟩
  · rw [hstats]
    exact size_describeRuns catalog runs
  · rw [hstats]
    simp only [← statisticFields_eq]
    exact entries_describeRuns_perm catalog runs
  · rw [hstats]
    exact describeRuns_contains_iff_existsUnique catalog runs
  · have hstat : ∀ s : Statistic, g.stat? name s.suffix = ((catalog.get? name).bind fun m =>
        Description.ofSamples (runs.filterMap m.value?)).map (·.get s) := by
      intro s
      rw [stat?, statAt?, hstats, get?_describeRuns]
      cases catalog.get? name with
      | none => rfl
      | some m => rfl
    exact ⟨hstat .mean, hstat .median, hstat .sd, hstat .meanUpper, hstat .meanLower⟩

/-! ### All groups -/

/--
**Statistics never collide, whatever the metrics are called.**

The key of a statistic tells the name of the metric and the suffix, and in every
group that comes out of aggregation all statistics of all metrics are found.
-/
theorem aggregate_statisticsApart (catalog : Catalog (Run α) α) (runs : List (Run α)) :
    (∀ metric metric', ∀ suffix ∈ Statistic.suffixes, ∀ suffix' ∈ Statistic.suffixes,
      statisticKey metric suffix = statisticKey metric' suffix' ↔
        metric = metric' ∧ suffix = suffix') ∧
    ∀ groups, aggregate catalog runs = .ok groups →
      ∀ g ∈ groups, g.StatisticsApart catalog (itemsWith Run.key runs g.key) := by
  refine ⟨?_, ?_⟩
  · intro metric metric' suffix hsuffix suffix' hsuffix'
    exact statisticKey_eq_iff hsuffix hsuffix'
  · intro groups hgroups g hg
    exact g.statisticsApart_of_stats (describes_of_aggregate hgroups hg).2

/-- Metrics named like statistics of each other, the last one without values. -/
def nestedCatalog : Catalog (Run Binary64) Binary64 :=
  (durationCatalog.insert (Metric.computed "duration_mean" fun r => some r.durationSecs)).insert
    (Metric.computed "duration_mean_upper" fun _ => none)

theorem aggregate_statisticsApart_nestedNames :
    (statisticKey "duration_mean" "mean" = statisticKey "duration" "mean_upper" ↔
      "duration_mean" = "duration" ∧ "mean" = "mean_upper") ∧
    ∃ groups, aggregate nestedCatalog mixedRuns = .ok groups ∧ ∃ g ∈ groups,
      g.key = (1, "Optimized") ∧ g.stats.size = 15 ∧
        g.StatisticsApart nestedCatalog (itemsWith Run.key mixedRuns g.key) := by
  obtain ⟨hkeys, hapart⟩ := aggregate_statisticsApart nestedCatalog mixedRuns
  obtain ⟨groups, hgroups⟩ := exists_aggregate_iff.mpr complete_mixedRuns
  obtain ⟨g, hg, hkey⟩ := List.mem_map.mp
    ((mem_keys_of_aggregate hgroups (k := (1, "Optimized"))).mpr (by decide))
  have hstatistics := hapart groups hgroups g hg
  refine ⟨hkeys _ _ _ (by decide) _ (by decide), groups, hgroups, g, hg, hkey, ?_, hstatistics⟩
  exact hstatistics.size.trans (by decide)

end RunCompare
