/-
Runs of other configurations do not touch a comparison.

The runs of a configuration on a test case are grouped by themselves: leaving
out the runs of other configurations leaves each group of runs as it is
(`mem_groupRuns_runsOfPair`), so it is aggregated to the same group.  What the
other runs can change is where a group stands, because a test case may first
appear with one of them.  The order of groups does not matter to a comparison,
as `Proofs/Comparison/Reordering.lean` shows.

A comparison hands on the groups of its two configurations, and nothing else
went into it: comparing these groups again changes nothing
(`compare_own_groups`).
-/
import RunCompare.Proofs.Aggregation.Outcome
import RunCompare.Proofs.Comparison.Reordering
import RunCompare.Proofs.Metric.Standard

namespace RunCompare

section

variable {α : Type} {pair : ConfigPair}

/-- The runs of the two configurations of a pair. -/
def runsOfPair (pair : ConfigPair) (runs : List (Run α)) : List (Run α) :=
  runs.filter fun r => r.config == pair.first || r.config == pair.second

/-! ### Groups of runs -/

/-- A group of runs is one that holds all runs with its test case and configuration. -/
theorem mem_groupRuns {runs : List (Run α)} {g : Group String (Run α)} :
    g ∈ groupRuns runs ↔
      g.first.config = g.key ∧ g.members = itemsWith Run.key runs g.runKey := by
  constructor
  · intro hg
    exact ⟨congrArg Prod.snd (groupRuns_first hg).2, groupRuns_members hg⟩
  · rintro ⟨hconfig, hmembers⟩
    have hkey : g.first.key = g.runKey := by rw [Run.key, Group.runKey, hconfig]
    have hfirst : g.first ∈ itemsWith Run.key runs g.runKey := by
      rw [← hmembers]
      exact List.mem_cons_self
    obtain ⟨g', hg', hkey', -⟩ := exists_group_of_mem (List.mem_filter.mp hfirst).1
    rw [hkey] at hkey'
    -- Both groups hold the same runs and have the same key.
    have hsame : g'.members = g.members := by rw [groupRuns_members hg', hkey', hmembers]
    obtain ⟨k, first, rest⟩ := g
    obtain ⟨k', first', rest'⟩ := g'
    cases congrArg Prod.snd hkey'
    cases hsame
    exact hg'

theorem itemsWith_runsOfPair {runs : List (Run α)} {k : UInt64 × String}
    (h : k.2 = pair.first ∨ k.2 = pair.second) :
    itemsWith Run.key (runsOfPair pair runs) k = itemsWith Run.key runs k := by
  unfold itemsWith runsOfPair
  rw [List.filter_filter]
  refine List.filter_congr fun r _ => ?_
  by_cases hk : r.key = k
  · have hconfig : r.config = k.2 := congrArg Prod.snd hk
    rcases h with h | h
    · simp [hk, hconfig, h]
    · simp [hk, hconfig, h]
  · simp [hk]

/-- **Leaving out other configurations leaves the groups of a pair as they are.** -/
theorem mem_groupRuns_runsOfPair {runs : List (Run α)} {g : Group String (Run α)} :
    g ∈ groupRuns (runsOfPair pair runs) ↔
      g ∈ groupRuns runs ∧ (g.key = pair.first ∨ g.key = pair.second) := by
  constructor
  · intro hg
    have hfirst := (groupRuns_first hg).1
    obtain ⟨hconfig, hmembers⟩ := mem_groupRuns.mp hg
    have hside : g.key = pair.first ∨ g.key = pair.second := by
      rw [← hconfig]
      simpa using (List.mem_filter.mp hfirst).2
    rw [itemsWith_runsOfPair hside] at hmembers
    exact ⟨mem_groupRuns.mpr ⟨hconfig, hmembers⟩, hside⟩
  · rintro ⟨hg, hside⟩
    obtain ⟨hconfig, hmembers⟩ := mem_groupRuns.mp hg
    rw [← itemsWith_runsOfPair hside] at hmembers
    exact mem_groupRuns.mpr ⟨hconfig, hmembers⟩

theorem ofPair_ofPair (groups : List (RunGroup α)) :
    ofPair pair (ofPair pair groups) = ofPair pair groups := by
  unfold ofPair
  rw [List.filter_filter]
  simp only [Bool.and_self]

variable [Scalar α]

/-- The groups of a pair are aggregated from its own runs. -/
theorem ofPair_aggregate_perm {catalog : Catalog (Run α) α} {runs : List (Run α)}
    {groups groups' : List (RunGroup α)} (h : aggregate catalog runs = .ok groups)
    (h' : aggregate catalog (runsOfPair pair runs) = .ok groups') :
    (ofPair pair groups).Perm groups' := by
  have hnodup : (ofPair pair groups).Nodup := (distinct_of_aggregate h).of_map.filter _
  have hnodup' : groups'.Nodup := (distinct_of_aggregate h').of_map
  rw [List.perm_ext_iff_of_nodup hnodup hnodup']
  intro out
  have hside : out ∈ ofPair pair groups ↔
      out ∈ groups ∧ (out.config = pair.first ∨ out.config = pair.second) := by
    simp [ofPair]
  have hconfig : ∀ {g : Group String (Run α)}, g ∈ groupRuns runs →
      aggregateGroup catalog g = .ok out → out.config = g.key := by
    intro g hg hok
    rw [(fields_of_aggregateGroup hok).2.1, (mem_groupRuns.mp hg).1]
  rw [hside, mem_of_aggregate h, mem_of_aggregate h']
  constructor
  · rintro ⟨⟨g, hg, hok⟩, hpair⟩
    rw [hconfig hg hok] at hpair
    exact ⟨g, mem_groupRuns_runsOfPair.mpr ⟨hg, hpair⟩, hok⟩
  · rintro ⟨g, hg, hok⟩
    obtain ⟨hg, hpair⟩ := mem_groupRuns_runsOfPair.mp hg
    rw [← hconfig hg hok] at hpair
    exact ⟨⟨g, hg, hok⟩, hpair⟩

/-! ### Comparing again -/

/-- **The groups that a comparison hands on compare to the same.** -/
theorem compare_own_groups (catalog : Catalog (RunGroup α) α) (groups : List (RunGroup α))
    (pair : ConfigPair) (h : (compare catalog groups pair).hasData = true) :
    compare catalog (compare catalog groups pair).groups pair = compare catalog groups pair := by
  rw [compare_eq catalog groups pair] at h ⊢
  split at h
  · cases h
  · rename_i hsides
    rw [if_neg hsides]
    show compare catalog (ofPair pair groups) pair = _
    rw [compare_eq, ofConfig_ofPair (Or.inl rfl), ofConfig_ofPair (Or.inr rfl), if_neg hsides,
      ofPair_ofPair]

end

/-! ### The whole comparison -/

/--
**A comparison does not depend on the runs of other configurations.**

Leaving them out before the runs are aggregated can change the order in which a
comparison lists its groups and speedups, and nothing else.
-/
theorem compare_noninterference [OpenFunctions] (pair : ConfigPair) (runs : List (Run ℚ))
    (complete : ∀ r ∈ runs, r.Complete) :
    ∃ aggregation groups groups', aggregationCatalog = .ok aggregation ∧
      aggregate aggregation runs = .ok groups ∧
      aggregate aggregation (runsOfPair pair runs) = .ok groups' ∧
      ∀ catalog : Catalog (RunGroup ℚ) ℚ,
        Comparison.Rearranged (compare catalog groups pair) (compare catalog groups' pair) ∧
        ((compare catalog groups pair).hasData = true →
          compare catalog (compare catalog groups pair).groups pair =
            compare catalog groups pair) := by
  have complete' : ∀ r ∈ runsOfPair pair runs, r.Complete := fun r hr =>
    complete r (List.mem_filter.mp hr).1
  obtain ⟨groups, h⟩ := exists_aggregate_iff.mpr complete
  obtain ⟨groups', h'⟩ := exists_aggregate_iff.mpr complete'
  refine ⟨_, groups, groups', aggregationCatalog_eq, h, h', fun catalog => ⟨?_, ?_⟩⟩
  · refine rearranged_of_ofPair catalog ?_
    have hperm := (ofPair_aggregate_perm h h').filter fun g =>
      g.config == pair.first || g.config == pair.second
    rw [← ofPair, ofPair_ofPair] at hperm
    exact hperm
  · exact compare_own_groups catalog groups pair

/-- Runs of three configurations; the second test case first appears with the third of them. -/
def crowdedRuns : List (Run ℚ) :=
  [.uniform 5 "Other" 40 2 1, .uniform 1 "Baseline" 40 4 2, .uniform 5 "Fast" 40 3 1,
    .uniform 1 "Fast" 40 2 2, .uniform 5 "Baseline" 40 6 3]

theorem compare_noninterference_crowdedRuns :
    letI := OpenFunctions.rational
    (∀ r ∈ crowdedRuns, r.Complete) ∧
    ∃ aggregation groups groups', aggregationCatalog = .ok aggregation ∧
      aggregate aggregation crowdedRuns = .ok groups ∧
      aggregate aggregation (runsOfPair ⟨"Baseline", "Fast"⟩ crowdedRuns) = .ok groups' ∧
      ∀ catalog : Catalog (RunGroup ℚ) ℚ,
        Comparison.Rearranged (compare catalog groups ⟨"Baseline", "Fast"⟩)
          (compare catalog groups' ⟨"Baseline", "Fast"⟩) ∧
        (compare catalog groups ⟨"Baseline", "Fast"⟩).hasData = true ∧
        compare catalog (compare catalog groups ⟨"Baseline", "Fast"⟩).groups
          ⟨"Baseline", "Fast"⟩ = compare catalog groups ⟨"Baseline", "Fast"⟩ := by
  let _ : OpenFunctions := OpenFunctions.rational
  have complete : ∀ r ∈ crowdedRuns, r.Complete := by
    simp only [crowdedRuns, List.forall_mem_cons]
    exact ⟨⟨_, rfl⟩, ⟨_, rfl⟩, ⟨_, rfl⟩, ⟨_, rfl⟩, ⟨_, rfl⟩, by simp⟩
  obtain ⟨aggregation, groups, groups', hcatalog, h, h', hall⟩ :=
    compare_noninterference ⟨"Baseline", "Fast"⟩ crowdedRuns complete
  have hside : ∀ config, (1, config) ∈ crowdedRuns.map Run.key →
      ∃ g ∈ groups, g.config = config := by
    intro config hkey
    obtain ⟨g, hg, hgkey⟩ := List.mem_map.mp ((mem_keys_of_aggregate h).mpr hkey)
    exact ⟨g, hg, congrArg Prod.snd hgkey⟩
  refine ⟨complete, aggregation, groups, groups', hcatalog, h, h', fun catalog => ?_⟩
  have hdata : (compare catalog groups ⟨"Baseline", "Fast"⟩).hasData = true := by
    rw [compare_eq_ofGroups catalog (hside "Baseline" (by simp [crowdedRuns, Run.key, Run.uniform]))
      (hside "Fast" (by simp [crowdedRuns, Run.key, Run.uniform]))]
    rfl
  exact ⟨(hall catalog).1, hdata, (hall catalog).2 hdata⟩

end RunCompare
