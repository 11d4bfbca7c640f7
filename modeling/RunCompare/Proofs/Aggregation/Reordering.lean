/-
Aggregation of runs that come in another order.

A permutation of the runs changes which run of a group is the first and in which
order the groups stand.  It does not change which runs a group holds, and the
statistics of a group depend on nothing else (`describeRuns_perm`), so two
orders give the same groups as far as counts and statistics go
(`SameStatistics`).

Whether aggregation succeeds does not depend on the order either, but the run
that an error is about may.
-/
import RunCompare.Proofs.Aggregation.Outcome
import RunCompare.Proofs.Metric.Standard
import RunCompare.Proofs.Stats.Reordering

namespace RunCompare

open Scalar Stats

/-- Two lists of groups have the same keys, and under each key the same number of runs and the
same statistics. -/
structure SameStatistics {α : Type} (groups groups' : List (RunGroup α)) : Prop where
  /-- Each list has one group under a key. -/
  distinct : (groups.map RunGroup.key).Nodup
  distinct' : (groups'.map RunGroup.key).Nodup
  keys : ∀ k, k ∈ groups.map RunGroup.key ↔ k ∈ groups'.map RunGroup.key
  counts : ∀ g ∈ groups, ∀ g' ∈ groups', g.key = g'.key → g.count = g'.count
  stats : ∀ g ∈ groups, ∀ g' ∈ groups', g.key = g'.key → g.stats = g'.stats

section

variable [OpenFunctions]

theorem Metric.values_perm {τ : Type} [Measured τ ℚ] (m : Metric τ ℚ) {xs ys : List τ}
    (h : xs.Perm ys) : (m.values xs).Perm (m.values ys) := h.filterMap _

/-- **The statistics of runs do not depend on their order.** -/
theorem describeRuns_perm (catalog : Catalog (Run ℚ) ℚ) {runs runs' : List (Run ℚ)}
    (h : runs.Perm runs') : describeRuns catalog runs = describeRuns catalog runs' := by
  rw [describeRuns_eq, describeRuns_eq]
  refine congrArg KeyMap.ofList (List.flatMap_congr fun m _ => ?_)
  rw [description_perm (m.values_perm h)]

/--
**Aggregation does not depend on the order of the runs.**

It succeeds on both orders or on none, and what differs are the order of the
groups and the fields that a group carries of its first run.
-/
theorem aggregate_perm (catalog : Catalog (Run ℚ) ℚ) {runs runs' : List (Run ℚ)}
    (h : runs.Perm runs') :
    ((∃ groups, aggregate catalog runs = .ok groups) ↔
      ∃ groups', aggregate catalog runs' = .ok groups') ∧
    ∀ groups groups', aggregate catalog runs = .ok groups →
      aggregate catalog runs' = .ok groups' → SameStatistics groups groups' := by
  constructor
  · rw [exists_aggregate_iff, exists_aggregate_iff]
    simp only [h.mem_iff]
  · intro groups groups' hok hok'
    have hmembers : ∀ k, (itemsWith Run.key runs k).Perm (itemsWith Run.key runs' k) :=
      fun k => h.filter _
    refine ⟨distinct_of_aggregate hok, distinct_of_aggregate hok', fun k => ?_, ?_, ?_⟩
    · rw [mem_keys_of_aggregate hok, mem_keys_of_aggregate hok', (h.map Run.key).mem_iff]
    · intro g hg g' hg' hkey
      rw [(describes_of_aggregate hok hg).1, (describes_of_aggregate hok' hg').1, hkey]
      exact (hmembers g'.key).length_eq
    · intro g hg g' hg' hkey
      rw [(describes_of_aggregate hok hg).2, (describes_of_aggregate hok' hg').2, hkey]
      exact describeRuns_perm catalog (hmembers g'.key)

end

/-- Five runs of one group, one of them an outlier, and two runs of another group among them. -/
def scatteredRuns : List (Run ℚ) :=
  [.uniform 3 "Fast" 40 3 1, .uniform 0 "Fast" 70 9 4, .uniform 3 "Fast" 40 90 2,
    .uniform 3 "Fast" 40 5 2, .uniform 3 "Fast" 40 4 3, .uniform 0 "Fast" 70 8 5,
    .uniform 3 "Fast" 40 2 1]

theorem aggregate_perm_scatteredRuns :
    letI := OpenFunctions.rational
    scatteredRuns.Perm scatteredRuns.reverse ∧ ∃ catalog groups groups',
      aggregationCatalog = .ok catalog ∧ aggregate catalog scatteredRuns = .ok groups ∧
      aggregate catalog scatteredRuns.reverse = .ok groups' ∧ SameStatistics groups groups' := by
  let _ : OpenFunctions := OpenFunctions.rational
  have h : scatteredRuns.Perm scatteredRuns.reverse := (List.reverse_perm _).symm
  have complete : ∀ r ∈ scatteredRuns, r.Complete := by
    simp only [scatteredRuns, List.forall_mem_cons]
    exact ⟨⟨_, rfl⟩, ⟨_, rfl⟩, ⟨_, rfl⟩, ⟨_, rfl⟩, ⟨_, rfl⟩, ⟨_, rfl⟩, ⟨_, rfl⟩, by simp⟩
  obtain ⟨groups, hok⟩ := exists_aggregate_iff.mpr complete
  obtain ⟨groups', hok'⟩ := (aggregate_perm _ h).1.mp ⟨groups, hok⟩
  have hsame := (aggregate_perm _ h).2 groups groups' hok hok'
  exact ⟨h, _, groups, groups', aggregationCatalog_eq, hok, hok', hsame⟩

end RunCompare
