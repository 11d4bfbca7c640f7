/-
Shares of a side and shares of its groups.

What share of its time a side spends on similarity, or in neither phase, is
computed from sums over its groups.  The compared metrics have the same shares
group by group.  If every group has a mean duration, and neither one of them nor
their sum is zero, the share of the side is the mean of the shares of its groups,
weighted by their durations (`IsMeanShare`).

Dividing by a duration and weighting by it cancel, which is the step of
`isMeanShare_of_quantity`.
-/
import RunCompare.Proofs.Comparison.Pairing
import RunCompare.Proofs.Rescaling
import Mathlib.Algebra.BigOperators.Group.List.Basic

namespace RunCompare

open Scalar Stats

/-! ### Means by duration -/

/-- All groups have mean durations, and neither one of these nor their sum is zero. -/
structure TimedBy (groups : List (RunGroup ℚ)) (durations : List ℚ) : Prop where
  means : groups.map (·.durationMean?) = durations.map some
  nonzero : ∀ d ∈ durations, d ≠ 0
  sum : durations.sum ≠ 0

/-- The mean of values by the weight of each. -/
def weightedMean (weights values : List ℚ) : ℚ :=
  (List.zipWith (· * ·) weights values).sum / weights.sum

/-- The mean duration of a group that has one. -/
def RunGroup.duration (g : RunGroup ℚ) : ℚ := g.durationMean?.getD 0

namespace TimedBy

variable {groups : List (RunGroup ℚ)} {durations : List ℚ}

theorem eq_map (h : TimedBy groups durations) : durations = groups.map RunGroup.duration := by
  have hmap := congrArg (List.map (·.getD 0)) h.means
  rw [List.map_map, List.map_map] at hmap
  exact (List.map_id durations).symm.trans hmap.symm

theorem of_mem (h : TimedBy groups durations) {g : RunGroup ℚ} (hg : g ∈ groups) :
    g.durationMean? = some g.duration ∧ g.duration ≠ 0 := by
  obtain ⟨d, hd, hmean⟩ := List.mem_map.mp (h.means ▸ List.mem_map_of_mem hg)
  have hduration : g.duration = d := by
    rw [RunGroup.duration, ← hmean]
    rfl
  rw [hduration]
  exact ⟨hmean.symm, h.nonzero d hd⟩

end TimedBy

section

variable [OpenFunctions]

/-- A share is the weighted mean of what the metric with a name extracts from each group. -/
def IsMeanShare (catalog : Catalog (RunGroup ℚ) ℚ) (groups : List (RunGroup ℚ))
    (durations : List ℚ) (name : String) (share : Option ℚ) : Prop :=
  ∃ m shares, catalog.get? name = some m ∧ groups.map m.value? = shares.map some ∧
    share = some (weightedMean durations shares)

/-- The shares of a side agree with those of its groups. -/
structure SharesAgree (catalog : Catalog (RunGroup ℚ) ℚ) (groups : List (RunGroup ℚ))
    (durations : List ℚ) (similarity : SimilarityShares ℚ) (overhead : Option ℚ) : Prop where
  overheadMean : IsMeanShare catalog groups durations "overhead_ratio" overhead
  /-- The rest of the time is spent in the two phases. -/
  overheadRest : overhead = some (1 - (groups.map fun g =>
    g.breakdown.leaves.totalTime + g.breakdown.bottomUp.totalTime).sum / durations.sum)
  leavesMean : IsMeanShare catalog groups durations "leaves_similarity_ratio" similarity.leaves
  bottomUpMean : IsMeanShare catalog groups durations "bottomup_similarity_ratio"
    similarity.bottomUp
  total : ∃ leaves bottomUp, similarity.leaves = some leaves ∧
    similarity.bottomUp = some bottomUp ∧ similarity.total = some (leaves + bottomUp)

variable {catalog : Catalog (RunGroup ℚ) ℚ} {groups : List (RunGroup ℚ)} {durations : List ℚ}

namespace TimedBy

theorem totalDuration_eq (h : TimedBy groups durations) :
    Comparison.totalDuration groups = durations.sum := by
  have hmeans : groups.filterMap (·.durationMean?) = durations := by
    have hid := congrArg (List.filterMap id) h.means
    simpa [List.filterMap_map, Function.comp_def] using hid
  rw [Comparison.totalDuration, hmeans, sum_eq]

/-- A part of the total duration is a share of it, as that is not zero. -/
theorem shareOf_eq (h : TimedBy groups durations) (part : ℚ) :
    Comparison.shareOf part (Comparison.totalDuration groups) = some (part / durations.sum) := by
  rw [h.totalDuration_eq, Comparison.shareOf, zero_eq, if_neg (by simpa using h.sum)]

end TimedBy

/-- **A metric that divides a quantity by the duration has the share of the quantities' sum as its
weighted mean.** -/
theorem isMeanShare_of_quantity (h : TimedBy groups durations) {name : String}
    {m : Metric (RunGroup ℚ) ℚ} (hname : catalog.get? name = some m) {quantity : RunGroup ℚ → ℚ}
    (hvalue : ∀ g ∈ groups, m.value? g = some (quantity g / g.duration)) :
    IsMeanShare catalog groups durations name
      (some ((groups.map quantity).sum / durations.sum)) := by
  refine ⟨m, groups.map fun g => quantity g / g.duration, hname, ?_, congrArg some ?_⟩
  · rw [List.map_map]
    exact List.map_congr_left hvalue
  · have hcancel : ∀ g ∈ groups, g.duration * (quantity g / g.duration) = quantity g :=
      fun g hg => mul_div_cancel₀ (quantity g) (h.of_mem hg).2
    rw [weightedMean, h.eq_map, List.zipWith_map, List.zipWith_self, List.map_congr_left hcancel]

/-! ### The metrics that are shares -/

theorem perDuration?_eq_some {g : RunGroup ℚ} (hmean : g.durationMean? = some g.duration)
    (hne : g.duration ≠ 0) (quantity : ℚ) :
    g.perDuration? quantity = some (quantity / g.duration) := by
  unfold RunGroup.perDuration?
  rw [hmean]
  show (if g.duration == zero then none else some (quantity / g.duration)) = _
  rw [zero_eq, if_neg (by simpa using hne)]

theorem overheadRatio?_eq_some {g : RunGroup ℚ} (hmean : g.durationMean? = some g.duration)
    (hne : g.duration ≠ 0) :
    g.overheadRatio? = some ((g.duration - g.breakdown.phaseTime) / g.duration) := by
  unfold RunGroup.overheadRatio?
  rw [hmean]
  exact perDuration?_eq_some hmean hne _

/-- A sum's share of the total duration is the mean of the metric that takes the share of each
summand. -/
theorem TimedBy.isMeanShare_sum (h : TimedBy groups durations) {name : String}
    {quantity : RunGroup ℚ → ℚ}
    (hname : catalog.get? name = some ⟨name, .computed fun g => g.perDuration? (quantity g)⟩) :
    IsMeanShare catalog groups durations name
      (Comparison.shareOf (Scalar.sum (groups.map quantity)) (Comparison.totalDuration groups)) := by
  rw [h.shareOf_eq, sum_eq]
  refine isMeanShare_of_quantity h hname fun g hg => ?_
  rw [Metric.value?_eq]
  exact perDuration?_eq_some (h.of_mem hg).1 (h.of_mem hg).2 _

theorem TimedBy.overheadOf_eq (h : TimedBy groups durations) : Comparison.overheadOf groups =
    some ((durations.sum - (groups.map (·.breakdown.phaseTime)).sum) / durations.sum) := by
  rw [Comparison.overheadOf, h.shareOf_eq, sum_eq, h.totalDuration_eq]

/-- **The shares of some groups are the weighted means of each group's shares.** -/
theorem TimedBy.sharesAgree (h : TimedBy groups durations)
    (hcatalog : comparisonCatalog = .ok catalog) :
    SharesAgree catalog groups durations (Comparison.similaritySharesOf groups)
      (Comparison.overheadOf groups) := by
  rw [comparisonCatalog_eq] at hcatalog
  cases hcatalog
  refine ⟨?_, ?_, h.isMeanShare_sum rfl, h.isMeanShare_sum rfl,
    _, _, h.shareOf_eq _, h.shareOf_eq _, (h.shareOf_eq _).trans ?_⟩
  · have hsub : (groups.map fun g => g.duration - g.breakdown.phaseTime).sum =
        (groups.map RunGroup.duration).sum - (groups.map (·.breakdown.phaseTime)).sum := by
      simpa using Multiset.sum_map_sub (m := (groups : Multiset (RunGroup ℚ)))
        (f := RunGroup.duration) (g := (·.breakdown.phaseTime))
    rw [← h.eq_map] at hsub
    rw [h.overheadOf_eq, ← hsub]
    refine isMeanShare_of_quantity h rfl fun g hg => ?_
    rw [Metric.value?_eq]
    exact overheadRatio?_eq_some (h.of_mem hg).1 (h.of_mem hg).2
  · rw [h.overheadOf_eq, sub_div, div_self h.sum]
    rfl
  · rw [add_div]

/-- **The shares of both sides of a comparison are the weighted means of the compared shares.**

Of the metrics that the comparison itself is made with nothing is used. -/
theorem compare_sharesAgree (hcatalog : comparisonCatalog = .ok catalog)
    (used : Catalog (RunGroup ℚ) ℚ) (groups : List (RunGroup ℚ)) (pair : ConfigPair)
    (first : ∃ g ∈ groups, g.config = pair.first) (second : ∃ g ∈ groups, g.config = pair.second) :
    (∀ durations, TimedBy (Comparison.ofConfig pair.first groups) durations →
      SharesAgree catalog (Comparison.ofConfig pair.first groups) durations
        (compare used groups pair).similarityShares.first
        (compare used groups pair).overhead.first) ∧
    ∀ durations, TimedBy (Comparison.ofConfig pair.second groups) durations →
      SharesAgree catalog (Comparison.ofConfig pair.second groups) durations
        (compare used groups pair).similarityShares.second
        (compare used groups pair).overhead.second := by
  rw [compare_eq_ofGroups used first second]
  constructor
  · intro durations h
    rw [← ofConfig_ofPair (Or.inl rfl)] at h ⊢
    exact h.sharesAgree hcatalog
  · intro durations h
    rw [← ofConfig_ofPair (Or.inr rfl)] at h ⊢
    exact h.sharesAgree hcatalog

end

/-- Groups whose phases take different shares of their time, and one of neither side. -/
def unevenGroups : List (RunGroup ℚ) :=
  [{ RunGroup.timed "a" "Fast" 4 10 with
      breakdown := ⟨⟨3, 1, 1, 2, 4, 1, KeyMap.empty⟩, ⟨4, 1 / 2, KeyMap.empty⟩, KeyMap.empty⟩ },
    { RunGroup.timed "b" "Baseline" 5 8 with
      breakdown := ⟨⟨1, 1, 1, 1, 5, 1, KeyMap.empty⟩, ⟨9, 3, KeyMap.empty⟩, KeyMap.empty⟩ },
    { RunGroup.timed "b" "Other" 5 0 with stats := KeyMap.empty },
    { RunGroup.timed "c" "Fast" 3 30 with
      breakdown := ⟨⟨6, 1, 1, 5, 3, 1, KeyMap.empty⟩, ⟨2, 1, KeyMap.empty⟩, KeyMap.empty⟩ }]

theorem compare_sharesAgree_unevenGroups :
    letI := OpenFunctions.rational
    (∃ g ∈ unevenGroups, g.config = "Fast") ∧ (∃ g ∈ unevenGroups, g.config = "Baseline") ∧
    TimedBy (Comparison.ofConfig "Fast" unevenGroups) [10, 30] ∧
    TimedBy (Comparison.ofConfig "Baseline" unevenGroups) [8] ∧
    ∃ catalog, comparisonCatalog = .ok catalog ∧
      SharesAgree catalog (Comparison.ofConfig "Fast" unevenGroups) [10, 30]
        (compare catalog unevenGroups ⟨"Fast", "Baseline"⟩).similarityShares.first
        (compare catalog unevenGroups ⟨"Fast", "Baseline"⟩).overhead.first ∧
      SharesAgree catalog (Comparison.ofConfig "Baseline" unevenGroups) [8]
        (compare catalog unevenGroups ⟨"Fast", "Baseline"⟩).similarityShares.second
        (compare catalog unevenGroups ⟨"Fast", "Baseline"⟩).overhead.second := by
  let _ : OpenFunctions := OpenFunctions.rational
  have first : ∃ g ∈ unevenGroups, g.config = "Fast" := ⟨_, List.mem_cons_self, rfl⟩
  have second : ∃ g ∈ unevenGroups, g.config = "Baseline" :=
    ⟨_, List.mem_cons_of_mem _ List.mem_cons_self, rfl⟩
  have hfast : TimedBy (Comparison.ofConfig "Fast" unevenGroups) [10, 30] :=
    ⟨rfl, by simp, by norm_num⟩
  have hbaseline : TimedBy (Comparison.ofConfig "Baseline" unevenGroups) [8] :=
    ⟨rfl, by simp, by norm_num⟩
  obtain ⟨hagree, hagree'⟩ := compare_sharesAgree comparisonCatalog_eq
    ⟨comparisonMetrics, comparisonMetrics_distinct⟩ unevenGroups ⟨"Fast", "Baseline"⟩ first second
  exact ⟨first, second, hfast, hbaseline, _, comparisonCatalog_eq, hagree _ hfast,
    hagree' _ hbaseline⟩

end RunCompare
