/-
Comparisons in another unit of time.

A comparison of two sides is made of quantities without a unit and, for the
metrics that are times, of differences in it.  Speedups, shares and ratios
divide one time by another, so the factor between the units cancels; the rank
test sees the order of the values only.  `Comparison.UnitFree` says so field by
field, and `analyze_rescale` follows it through the whole analysis.

No guard against a zero or a missing value may notice the unit either, which is
why the factor is above zero.
-/
import RunCompare.Analysis
import RunCompare.Proofs.Comparison.Pairing
import RunCompare.Proofs.Rescaling
import RunCompare.Proofs.Stats.RankTest

namespace RunCompare

open Scalar Stats

variable {c : ℚ}

/-! ### Units -/

/-- The metrics whose values are times. -/
def timeMetrics : List String :=
  ["duration", "duration_wo_similarity", "leaves_similarity_time", "bottomup_similarity_time"]

/-- What the values of a metric are multiplied by. -/
def unitFactor (c : ℚ) (name : String) : ℚ := if name ∈ timeMetrics then c else 1

theorem unitFactor_pos (hc : 0 < c) (name : String) : 0 < unitFactor c name := by
  unfold unitFactor
  split
  · exact hc
  · exact one_pos

/-! ### Paired files -/

/-- One of the two lists of groups, seen from what both have in common. -/
structure Rescaled.View (p : Rescaled c → RunGroup ℚ) : Prop where
  file : ∀ z, (p z).file = z.before.file
  config : ∀ z, (p z).config = z.before.config

theorem Rescaled.view_before : View (c := c) (·.before) := ⟨fun _ => rfl, fun _ => rfl⟩

theorem Rescaled.view_after : View (c := c) (·.after) := ⟨fun z => z.file, fun z => z.config⟩

namespace Rescaled.View

variable {p : Rescaled c → RunGroup ℚ}

theorem ofConfig (hp : View p) (config : String) (zs : List (Rescaled c)) :
    Comparison.ofConfig config (zs.map p) =
      (zs.filter fun z => z.before.config == config).map p := by
  unfold Comparison.ofConfig
  rw [List.filter_map]
  simp only [Function.comp_def, hp.config]

theorem ofPair (hp : View p) (pair : ConfigPair) (zs : List (Rescaled c)) :
    RunCompare.ofPair pair (zs.map p) = (zs.filter fun z =>
      z.before.config == pair.first || z.before.config == pair.second).map p := by
  unfold RunCompare.ofPair
  rw [List.filter_map]
  simp only [Function.comp_def, hp.config]

end Rescaled.View

/-- A pair of groups as a paired file in one of the two lists. -/
def Rescaled.paired (p : Rescaled c → RunGroup ℚ) (f : Rescaled c × Rescaled c) :
    Comparison.PairedFile ℚ := ⟨p f.1, p f.2⟩

theorem pairFile_rescale (pair : ConfigPair) (zs : List (Rescaled c)) :
    ∃ f : Option (Rescaled c × Rescaled c), ∀ p, Rescaled.View p →
      Comparison.pairFile pair (zs.map p) = f.map (Rescaled.paired p) := by
  by_cases h : ∃ a b, zs.filter (fun z => z.before.config == pair.baseline) = [a] ∧
      zs.filter (fun z => z.before.config == pair.variant) = [b]
  · -- Which groups a side has is decided before the view is taken.
    obtain ⟨a, b, ha, hb⟩ := h
    refine ⟨some (a, b), fun p hp => Comparison.pairFile_eq_some.mpr ?_⟩
    rw [hp.ofConfig, hp.ofConfig, ha, hb]
    exact ⟨rfl, rfl⟩
  · refine ⟨none, fun p hp => Option.eq_none_iff_forall_ne_some.mpr fun f hf => h ?_⟩
    obtain ⟨hbase, hvariant⟩ := Comparison.pairFile_eq_some.mp hf
    rw [hp.ofConfig] at hbase hvariant
    obtain ⟨a, ha, -⟩ := List.map_eq_singleton_iff.mp hbase
    obtain ⟨b, hb, -⟩ := List.map_eq_singleton_iff.mp hvariant
    exact ⟨a, b, ha, hb⟩

/-- **The same files are paired in every unit.** -/
theorem pairFiles_rescale (pair : ConfigPair) (zs : List (Rescaled c)) :
    ∃ fs : List (Rescaled c × Rescaled c), ∀ p, Rescaled.View p →
      Comparison.pairFiles pair (zs.map p) = fs.map (Rescaled.paired p) := by
  choose pairing hpairing using pairFile_rescale (c := c) pair
  refine ⟨(groupBy (fun z => z.before.file) zs).filterMap fun g => pairing g.members,
    fun p hp => ?_⟩
  have hkey : (fun g => g.file) ∘ p = fun z => z.before.file := funext hp.file
  unfold Comparison.pairFiles
  rw [groupBy_map, hkey, List.filterMap_map, List.map_filterMap]
  exact List.filterMap_congr fun g _ => hpairing g.members p hp

/-- What is the same of a pair of groups in both units is the same of all paired files. -/
theorem map_pairFiles_rescale {β : Type} {f : Comparison.PairedFile ℚ → β}
    (hf : ∀ g : Rescaled c × Rescaled c,
      f (Rescaled.paired (·.after) g) = f (Rescaled.paired (·.before) g))
    (pair : ConfigPair) (zs : List (Rescaled c)) :
    (Comparison.pairFiles pair (zs.map (·.after))).map f =
      (Comparison.pairFiles pair (zs.map (·.before))).map f := by
  obtain ⟨fs, hfs⟩ := pairFiles_rescale pair zs
  rw [hfs _ Rescaled.view_after, hfs _ Rescaled.view_before, List.map_map, List.map_map]
  exact List.map_congr_left fun g _ => hf g

section

variable [OpenFunctions]

/-! ### Quotients -/

theorem signedRatio_scale (hc : 0 < c) (x y : ℚ) :
    signedRatio (c * x) (c * y) = signedRatio x y := by
  have hle : ∀ z : ℚ, c * z ≤ zero ↔ z ≤ zero := by
    intro z
    rw [zero_eq]
    exact ⟨fun h => nonpos_of_mul_nonpos_right h hc, mul_nonpos_of_nonneg_of_nonpos hc.le⟩
  unfold signedRatio
  simp only [hle, isFinite_eq, mul_div_mul_left x y hc.ne']

theorem beq_zero_scale (hc : 0 < c) (x : ℚ) : (c * x == zero) = (x == zero) := by
  rw [zero_eq, Bool.eq_iff_iff, beq_iff_eq, beq_iff_eq, mul_eq_zero]
  exact or_iff_right hc.ne'

theorem shareOf_scale (hc : 0 < c) (part total : ℚ) :
    Comparison.shareOf (c * part) (c * total) = Comparison.shareOf part total := by
  unfold Comparison.shareOf
  rw [beq_zero_scale hc, mul_div_mul_left part total hc.ne']

/-! ### One metric -/

/-- The relation of two statistics in another unit. -/
structure Delta.Rescaled (k : ℚ) (d d' : Delta ℚ) : Prop where
  difference : d'.difference = d.difference.map (k * ·)
  ratio : d'.ratio = d.ratio
  reduction : d'.reduction = d.reduction

/-- The comparison of one metric in another unit. -/
structure MetricComparison.Rescaled (k : ℚ) (m m' : MetricComparison ℚ) : Prop where
  sum : m.sum.Rescaled k m'.sum
  median : m.median.Rescaled k m'.median
  q1 : m.q1.Rescaled k m'.q1
  q3 : m.q3.Rescaled k m'.q3
  test : m'.test = m.test
  significant005 : m'.significant005 = m.significant005
  significant001 : m'.significant001 = m.significant001

theorem Delta.between_scale {k : ℚ} (hk : 0 < k) (a b : Option ℚ) :
    (Delta.between a b).Rescaled k (Delta.between (a.map (k * ·)) (b.map (k * ·))) := by
  cases a with
  | none =>
      cases b with
      | none => exact ⟨rfl, rfl, rfl⟩
      | some b => exact ⟨rfl, rfl, rfl⟩
  | some a =>
      cases b with
      | none => exact ⟨rfl, rfl, rfl⟩
      | some b =>
          refine ⟨congrArg some (mul_sub k a b).symm, ?_, ?_⟩
          · show (if k * b == zero then Option.none else some (k * a / (k * b))) = _
            rw [beq_zero_scale hk, mul_div_mul_left a b hk.ne']
            rfl
          · show (if k * a == zero then Option.none
              else some ((k * a - k * b) / (k * a) * ((100 : Nat) : ℚ))) = _
            rw [beq_zero_scale hk, ← mul_sub, mul_div_mul_left (a - b) a hk.ne']
            rfl

theorem MetricComparison.between_scale {k : ℚ} (hk : 0 < k) (xs ys : List ℚ) :
    (between (Summary.ofSamples xs) (Summary.ofSamples ys) xs ys).Rescaled k
      (between (Summary.ofSamples (xs.map (k * ·))) (Summary.ofSamples (ys.map (k * ·)))
        (xs.map (k * ·)) (ys.map (k * ·))) := by
  have htest := ofSamples_map (Affine.scaling hk).strictMono xs ys
  have hempty : ∀ s : Summary ℚ, (s.scale k).isEmpty = s.isEmpty := fun _ => rfl
  rw [summary_scale hk, summary_scale hk]
  unfold between
  rw [hempty, hempty]
  by_cases h : ((Summary.ofSamples xs).isEmpty || (Summary.ofSamples ys).isEmpty) = true
  · rw [if_pos h, if_pos h]
    exact ⟨⟨rfl, rfl, rfl⟩, ⟨rfl, rfl, rfl⟩, ⟨rfl, rfl, rfl⟩, ⟨rfl, rfl, rfl⟩, rfl, rfl, rfl⟩
  · rw [if_neg h, if_neg h]
    refine ⟨Delta.between_scale hk (some _) (some _), Delta.between_scale hk _ _,
      Delta.between_scale hk _ _, Delta.between_scale hk _ _, htest, ?_, ?_⟩
    · exact congrArg (fun t => Option.any (·.significantAt weakLevel) t) htest
    · exact congrArg (fun t => Option.any (·.significantAt strongLevel) t) htest

namespace Rescaled

variable (z : Rescaled c)

theorem perDuration?_eq (hc : 0 < c) (quantity : ℚ) :
    z.after.perDuration? (c * quantity) = z.before.perDuration? quantity := by
  unfold RunGroup.perDuration?
  rw [z.duration]
  cases z.before.durationMean? with
  | none => rfl
  | some duration =>
      show (if c * duration == zero then none else some (c * quantity / (c * duration))) = _
      rw [beq_zero_scale hc, mul_div_mul_left quantity duration hc.ne']
      rfl

theorem overheadRatio?_eq (hc : 0 < c) : z.after.overheadRatio? = z.before.overheadRatio? := by
  unfold RunGroup.overheadRatio?
  rw [z.duration, z.phaseTime_eq]
  cases z.before.durationMean? with
  | none => rfl
  | some duration =>
      show z.after.perDuration? (c * duration - c * z.before.breakdown.phaseTime) = _
      rw [← mul_sub, z.perDuration?_eq hc]
      rfl

/-- **The value of a compared metric is multiplied by the factor of its unit.** -/
theorem value?_eq (hc : 0 < c) {m : Metric (RunGroup ℚ) ℚ} (hm : m ∈ comparisonMetrics) :
    m.value? z.after = (m.value? z.before).map (unitFactor c m.name * ·) := by
  have htime : ∀ name ∈ timeMetrics, unitFactor c name = c := fun _ h => if_pos h
  have hpure : ∀ name ∉ timeMetrics, ∀ v : Option ℚ, v = v.map (unitFactor c name * ·) := by
    intro name h v
    have hone : unitFactor c name = 1 := if_neg h
    rw [hone]
    simp
  rw [Metric.value?_eq, Metric.value?_eq]
  simp only [comparisonMetrics, List.mem_cons, List.not_mem_nil, or_false] at hm
  rcases hm with rfl | rfl | rfl | rfl | rfl | rfl | rfl | rfl
  · rw [htime "duration" (by decide)]
    exact z.duration
  · rw [htime "duration_wo_similarity" (by decide)]
    exact z.withoutSimilarity
  · rw [← hpure "number_similarity_checks" (by decide)]
    show some (scalarOfCount z.after.breakdown.leaves.similarityChecks) = _
    rw [z.breakdown]
    rfl
  · rw [htime "leaves_similarity_time" (by decide)]
    show some z.after.breakdown.leaves.similarityTime = _
    rw [z.breakdown]
    rfl
  · rw [htime "bottomup_similarity_time" (by decide)]
    show some z.after.breakdown.bottomUp.similarityTime = _
    rw [z.breakdown]
    rfl
  · rw [← hpure "leaves_similarity_ratio" (by decide)]
    show z.after.perDuration? z.after.breakdown.leaves.similarityTime = _
    rw [z.breakdown]
    exact z.perDuration?_eq hc _
  · rw [← hpure "bottomup_similarity_ratio" (by decide)]
    show z.after.perDuration? z.after.breakdown.bottomUp.similarityTime = _
    rw [z.breakdown]
    exact z.perDuration?_eq hc _
  · rw [← hpure "overhead_ratio" (by decide)]
    exact z.overheadRatio?_eq hc

end Rescaled

/-! ### Speedups and checks -/

theorem point?_rescale (hc : 0 < c) (f : Rescaled c × Rescaled c) :
    (Rescaled.paired (·.after) f).point? = (Rescaled.paired (·.before) f).point? := by
  obtain ⟨b, v⟩ := f
  have hspeedup : (Rescaled.paired (·.after) (b, v)).speedup? =
      (Rescaled.paired (·.before) (b, v)).speedup? := by
    show (b.after.durationMean? >>= fun x => v.after.durationMean? >>= fun y => signedRatio x y) =
      (b.before.durationMean? >>= fun x => v.before.durationMean? >>= fun y => signedRatio x y)
    rw [b.duration, v.duration]
    cases b.before.durationMean? with
    | none => rfl
    | some x =>
        cases v.before.durationMean? with
        | none => rfl
        | some y => exact signedRatio_scale hc x y
  unfold Comparison.PairedFile.point?
  rw [hspeedup]
  show Option.map (fun speedup => SpeedupPoint.mk v.after.file v.after.config v.after.loc
    v.after.nodeCount speedup) _ = _
  rw [v.file, v.config, v.loc, v.nodeCount]
  rfl

theorem checks_rescale (f : Rescaled c × Rescaled c) :
    (Rescaled.paired (·.after) f).checks = (Rescaled.paired (·.before) f).checks := by
  obtain ⟨b, v⟩ := f
  show (scalarOfCount b.after.breakdown.leaves.similarityChecks,
    scalarOfCount v.after.breakdown.leaves.similarityChecks) = _
  rw [b.breakdown, v.breakdown]
  rfl

theorem speedups_rescale (hc : 0 < c) (catalog : Catalog (RunGroup ℚ) ℚ) (pair : ConfigPair)
    (zs : List (Rescaled c)) :
    (Comparison.ofGroups catalog pair (zs.map (·.after))).speedups =
      (Comparison.ofGroups catalog pair (zs.map (·.before))).speedups := by
  have h := congrArg (List.filterMap id) (map_pairFiles_rescale (point?_rescale hc) pair zs)
  rw [List.filterMap_map, List.filterMap_map] at h
  exact h

theorem undefined_rescale (hc : 0 < c) (pair : ConfigPair) (zs : List (Rescaled c)) :
    (Comparison.pairFiles pair (zs.map (·.after))).countP (·.point?.isNone) =
      (Comparison.pairFiles pair (zs.map (·.before))).countP (·.point?.isNone) := by
  have h := congrArg (List.countP (·.isNone)) (map_pairFiles_rescale (point?_rescale hc) pair zs)
  rw [List.countP_map, List.countP_map] at h
  exact h

/-! ### Shares of the total duration -/

section

variable (zs : List (Rescaled c))

theorem totalDuration_rescale : Comparison.totalDuration (zs.map (·.after)) =
    c * Comparison.totalDuration (zs.map (·.before)) := by
  unfold Comparison.totalDuration
  rw [← sum_scale, List.filterMap_map, List.filterMap_map, List.map_filterMap]
  exact congrArg _ (List.filterMap_congr fun z _ => z.duration)

theorem sum_rescale (time : RunGroup ℚ → ℚ)
    (h : ∀ z : Rescaled c, time z.after = c * time z.before) :
    Scalar.sum ((zs.map (·.after)).map time) =
      c * Scalar.sum ((zs.map (·.before)).map time) := by
  rw [← sum_scale, List.map_map, List.map_map, List.map_map]
  exact congrArg _ (List.map_congr_left fun z _ => h z)

theorem similaritySharesOf_rescale (hc : 0 < c) :
    Comparison.similaritySharesOf (zs.map (·.after)) =
      Comparison.similaritySharesOf (zs.map (·.before)) := by
  have hleaves := sum_rescale zs (·.breakdown.leaves.similarityTime) fun z => by
    rw [z.breakdown]
    rfl
  have hbottomUp := sum_rescale zs (·.breakdown.bottomUp.similarityTime) fun z => by
    rw [z.breakdown]
    rfl
  unfold Comparison.similaritySharesOf
  simp only [hleaves, hbottomUp, totalDuration_rescale, ← mul_add, shareOf_scale hc]

theorem overheadOf_rescale (hc : 0 < c) :
    Comparison.overheadOf (zs.map (·.after)) = Comparison.overheadOf (zs.map (·.before)) := by
  have hphases := sum_rescale zs (·.breakdown.phaseTime) fun z => z.phaseTime_eq
  unfold Comparison.overheadOf
  simp only [hphases, totalDuration_rescale, ← mul_sub, shareOf_scale hc]

end

/-! ### The whole comparison -/

/-- A comparison in another unit of time. -/
structure Comparison.UnitFree (catalog : Catalog (RunGroup ℚ) ℚ) (c : ℚ) (d d' : Comparison ℚ) :
    Prop where
  pair : d'.pair = d.pair
  hasData : d'.hasData = d.hasData
  speedups : d'.speedups = d.speedups
  speedupStats : d'.speedupStats = d.speedupStats
  regression : d'.regression = d.regression
  checksReduction : d'.checksReduction = d.checksReduction
  similarityShares : d'.similarityShares = d.similarityShares
  overhead : d'.overhead = d.overhead
  metrics : ∀ m ∈ catalog.metrics, ∃ e e',
    d.metrics.get? m.name = some e ∧ d'.metrics.get? m.name = some e' ∧
      e.Rescaled (unitFactor c m.name) e'

/-- The standard catalog of the metrics that are compared. -/
def standardComparison : Catalog (RunGroup ℚ) ℚ := ⟨comparisonMetrics, comparisonMetrics_distinct⟩

theorem unitFree_empty (catalog : Catalog (RunGroup ℚ) ℚ) (c : ℚ) (pair : ConfigPair) :
    Comparison.UnitFree catalog c (Comparison.empty catalog pair)
      (Comparison.empty catalog pair) := by
  refine ⟨rfl, rfl, rfl, rfl, rfl, rfl, rfl, rfl, fun m hm => ?_⟩
  exact ⟨_, _, get?_ofNames catalog _ hm, get?_ofNames catalog _ hm,
    ⟨rfl, rfl, rfl⟩, ⟨rfl, rfl, rfl⟩, ⟨rfl, rfl, rfl⟩, ⟨rfl, rfl, rfl⟩, rfl, rfl, rfl⟩

theorem compareMetrics_rescale (hc : 0 < c) (firsts seconds : List (Rescaled c))
    {m : Metric (RunGroup ℚ) ℚ} (hm : m ∈ comparisonMetrics) : ∃ e e',
      (Comparison.compareMetrics standardComparison (firsts.map (·.before))
        (seconds.map (·.before))).get? m.name = some e ∧
      (Comparison.compareMetrics standardComparison (firsts.map (·.after))
        (seconds.map (·.after))).get? m.name = some e' ∧
      e.Rescaled (unitFactor c m.name) e' := by
  have hvalues : ∀ zs : List (Rescaled c), m.values (zs.map (·.after)) =
      (m.values (zs.map (·.before))).map (unitFactor c m.name * ·) :=
    fun zs => Metric.values_map fun z _ => z.value?_eq hc hm
  refine ⟨_, _, get?_ofMetrics standardComparison _ hm, get?_ofMetrics standardComparison _ hm, ?_⟩
  rw [hvalues, hvalues]
  exact MetricComparison.between_scale (unitFactor_pos hc m.name) _ _

theorem ofGroups_rescale (hc : 0 < c) (pair : ConfigPair) (zs : List (Rescaled c)) :
    Comparison.UnitFree standardComparison c
      (Comparison.ofGroups standardComparison pair (zs.map (·.before)))
      (Comparison.ofGroups standardComparison pair (zs.map (·.after))) := by
  have hspeedups := speedups_rescale hc standardComparison pair zs
  have hside : ∀ {β : Type} (f : List (RunGroup ℚ) → β),
      (∀ ws : List (Rescaled c), f (ws.map (·.after)) = f (ws.map (·.before))) → ∀ config,
        f (Comparison.ofConfig config (zs.map (·.after))) =
          f (Comparison.ofConfig config (zs.map (·.before))) := by
    intro β f hf config
    rw [Rescaled.view_after.ofConfig, Rescaled.view_before.ofConfig]
    exact hf _
  refine ⟨rfl, rfl, hspeedups, ?_, ?_, ?_, ?_, ?_, ?_⟩
  · show SpeedupStats.ofSpeedups
      ((Comparison.ofGroups standardComparison pair (zs.map (·.after))).speedups.map _) _
        ((Comparison.pairFiles pair (zs.map (·.after))).countP _) = _
    rw [hspeedups, undefined_rescale hc]
    rfl
  · show Regression.ofPoints
      ((Comparison.ofGroups standardComparison pair (zs.map (·.after))).speedups.map _) = _
    rw [hspeedups]
    rfl
  · exact congrArg ReductionStats.ofPairs (map_pairFiles_rescale checks_rescale pair zs)
  · have hshares := hside Comparison.similaritySharesOf fun ws => similaritySharesOf_rescale ws hc
    exact congrArg₂ Sides.mk (hshares pair.first) (hshares pair.second)
  · have hshares := hside Comparison.overheadOf fun ws => overheadOf_rescale ws hc
    exact congrArg₂ Sides.mk (hshares pair.first) (hshares pair.second)
  · intro m hm
    show ∃ e e', (Comparison.compareMetrics _ (Comparison.ofConfig _ _)
      (Comparison.ofConfig _ _)).get? _ = _ ∧ (Comparison.compareMetrics _
        (Comparison.ofConfig _ _) (Comparison.ofConfig _ _)).get? _ = _ ∧ _
    rw [Rescaled.view_before.ofConfig, Rescaled.view_before.ofConfig,
      Rescaled.view_after.ofConfig, Rescaled.view_after.ofConfig]
    exact compareMetrics_rescale hc _ _ hm

theorem compare_rescale (hc : 0 < c) (pair : ConfigPair) (zs : List (Rescaled c)) :
    Comparison.UnitFree standardComparison c
      (compare standardComparison (zs.map (·.before)) pair)
      (compare standardComparison (zs.map (·.after)) pair) := by
  rw [compare_eq, compare_eq, Rescaled.view_before.ofConfig, Rescaled.view_before.ofConfig,
    Rescaled.view_after.ofConfig, Rescaled.view_after.ofConfig, Rescaled.view_before.ofPair,
    Rescaled.view_after.ofPair]
  simp only [List.isEmpty_map]
  split
  · exact unitFree_empty _ _ pair
  · exact ofGroups_rescale hc pair _

/--
**An analysis does not depend on the unit of time.**

Times of all runs are multiplied by one factor; every comparison keeps all its
numbers except for the differences of the metrics that are times.
-/
theorem analyze_rescale (hc : 0 < c) (config : Config) (generatedAt generatedAt' : String)
    (runs : List (Run ℚ)) (complete : ∀ r ∈ runs, r.Complete) :
    ∃ catalog report report', comparisonCatalog = .ok catalog ∧
      analyze config generatedAt runs = .ok report ∧
      analyze config generatedAt' (runs.map (Run.rescale c)) = .ok report' ∧
      report.comparisons.map (·.pair) = config.pairs ∧
      List.Forall₂ (Comparison.UnitFree catalog c) report.comparisons report'.comparisons := by
  obtain ⟨zs, hbefore, hafter⟩ := aggregate_rescale hc runs complete
  have hrun : ∀ (at' : String) (rs : List (Run ℚ)) (groups : List (RunGroup ℚ)),
      aggregate standardAggregation rs = .ok groups → ∃ report, analyze config at' rs = .ok report ∧
        report.comparisons = compareAll standardComparison groups config.pairs := by
    intro at' rs groups h
    unfold analyze
    rw [aggregationCatalog_eq, comparisonCatalog_eq]
    show ∃ report, (aggregate standardAggregation rs >>= _) = .ok report ∧ _
    rw [h]
    exact ⟨_, rfl, rfl⟩
  obtain ⟨report, hreport, hcomparisons⟩ := hrun generatedAt _ _ hbefore
  obtain ⟨report', hreport', hcomparisons'⟩ := hrun generatedAt' _ _ hafter
  refine ⟨standardComparison, report, report', comparisonCatalog_eq, hreport, hreport', ?_, ?_⟩
  · rw [hcomparisons, compareAll, List.map_map]
    exact (List.map_congr_left fun pair _ => pair_compare _ _ pair).trans (List.map_id _)
  · rw [hcomparisons, hcomparisons', compareAll, compareAll, List.forall₂_map_left_iff,
      List.forall₂_map_right_iff, List.forall₂_same]
    exact fun pair _ => compare_rescale hc pair zs

end

/-- Two files measured on both sides, one of them twice on one side. -/
def repeatedRuns : List (Run ℚ) :=
  [{ Run.uniform 0 "Baseline" 70 3 5 with file := "a" },
    { Run.uniform 1 "Fast" 40 2 4 with file := "b" },
    { Run.uniform 0 "Fast" 70 1 5 with file := "a" },
    { Run.uniform 1 "Baseline" 40 2 3 with file := "b" },
    { Run.uniform 0 "Fast" 70 2 6 with file := "a" }]

theorem analyze_rescale_repeatedRuns :
    letI := OpenFunctions.rational
    (0 : ℚ) < 1000 ∧ (∀ r ∈ repeatedRuns, r.Complete) ∧
    ∃ catalog report report', comparisonCatalog = .ok catalog ∧
      analyze ⟨"speed", none, false, [⟨"Baseline", "Fast"⟩]⟩ "before" repeatedRuns = .ok report ∧
      analyze ⟨"speed", none, false, [⟨"Baseline", "Fast"⟩]⟩ "after"
        (repeatedRuns.map (Run.rescale 1000)) = .ok report' ∧
      report.comparisons.map (·.pair) = [⟨"Baseline", "Fast"⟩] ∧
      List.Forall₂ (Comparison.UnitFree catalog 1000) report.comparisons report'.comparisons := by
  let _ : OpenFunctions := OpenFunctions.rational
  have hc : (0 : ℚ) < 1000 := by norm_num
  have complete : ∀ r ∈ repeatedRuns, r.Complete := by
    simp only [repeatedRuns, List.forall_mem_cons]
    exact ⟨⟨_, rfl⟩, ⟨_, rfl⟩, ⟨_, rfl⟩, ⟨_, rfl⟩, ⟨_, rfl⟩, by simp⟩
  exact ⟨hc, complete, analyze_rescale hc ⟨"speed", none, false, [⟨"Baseline", "Fast"⟩]⟩ "before"
    "after" repeatedRuns complete⟩

end RunCompare
