/-
Runs measured in another unit of time.

Multiplying every time of every run by one positive factor changes no group and
none of its counts.  The times of a group's breakdown and the means of its two
durations are multiplied by the factor; `Rescaled` is a group before and after,
with the proof that this is how the two are related.  `aggregate_rescale` is
that aggregation yields such groups, in the same order.

The standard deviations of a group are left out: they are square roots, of
which nothing is assumed.
-/
import RunCompare.Proofs.Aggregation
import RunCompare.Proofs.Metric.Standard
import RunCompare.Proofs.Stats.Affine

namespace RunCompare

open Scalar Stats

/-! ### Times multiplied by a factor -/

def LeavesReport.rescale (c : ℚ) (r : LeavesReport ℚ) : LeavesReport ℚ :=
  { r with totalTime := r.totalTime.map (c * ·), similarityTime := r.similarityTime.map (c * ·) }

def BottomUpReport.rescale (c : ℚ) (r : BottomUpReport ℚ) : BottomUpReport ℚ :=
  { r with totalTime := r.totalTime.map (c * ·), similarityTime := r.similarityTime.map (c * ·) }

def PhaseReport.rescale (c : ℚ) (r : PhaseReport ℚ) : PhaseReport ℚ :=
  { r with leaves := r.leaves.map (·.rescale c), bottomUp := r.bottomUp.map (·.rescale c) }

/-- A run with all its times multiplied by a factor. -/
def Run.rescale (c : ℚ) (r : Run ℚ) : Run ℚ :=
  { r with durationSecs := c * r.durationSecs, report := r.report.map (·.rescale c) }

def LeavesPhase.rescale (c : ℚ) (p : LeavesPhase ℚ) : LeavesPhase ℚ :=
  { p with totalTime := c * p.totalTime, similarityTime := c * p.similarityTime }

def BottomUpPhase.rescale (c : ℚ) (p : BottomUpPhase ℚ) : BottomUpPhase ℚ :=
  { p with totalTime := c * p.totalTime, similarityTime := c * p.similarityTime }

def Breakdown.rescale (c : ℚ) (b : Breakdown ℚ) : Breakdown ℚ :=
  { b with leaves := b.leaves.rescale c, bottomUp := b.bottomUp.rescale c }

theorem LeavesReport.complete_rescale (c : ℚ) (r : LeavesReport ℚ) :
    (r.rescale c).complete = r.complete.map (·.rescale c) := by
  obtain ⟨totalTime, totalComparisons, exactMatches, similarityTime, similarityChecks,
    charactersCompared, others⟩ := r
  cases totalTime with
  | none => rfl
  | some _ =>
  cases totalComparisons with
  | none => rfl
  | some _ =>
  cases exactMatches with
  | none => rfl
  | some _ =>
  cases similarityTime with
  | none => rfl
  | some _ =>
  cases similarityChecks with
  | none => rfl
  | some _ =>
  cases charactersCompared with
  | none => rfl
  | some _ => rfl

theorem BottomUpReport.complete_rescale (c : ℚ) (r : BottomUpReport ℚ) :
    (r.rescale c).complete = r.complete.map (·.rescale c) := by
  obtain ⟨totalTime, similarityTime, others⟩ := r
  cases totalTime with
  | none => rfl
  | some _ =>
  cases similarityTime with
  | none => rfl
  | some _ => rfl

theorem PhaseReport.complete_rescale (c : ℚ) (r : PhaseReport ℚ) :
    (r.rescale c).complete = r.complete.map (·.rescale c) := by
  obtain ⟨leaves, bottomUp, others⟩ := r
  cases leaves with
  | none => rfl
  | some leaves =>
  unfold complete rescale
  simp only [Option.map_some, orMissing]
  show ((leaves.rescale c).complete >>= _) = Except.map _ (leaves.complete >>= _)
  rw [leaves.complete_rescale]
  cases leaves.complete with
  | error part => rfl
  | ok phase =>
  cases bottomUp with
  | none => rfl
  | some bottomUp =>
  show ((bottomUp.rescale c).complete >>= _) = Except.map _ (bottomUp.complete >>= _)
  rw [bottomUp.complete_rescale]
  cases bottomUp.complete with
  | error part => rfl
  | ok phase => rfl

/-- **A run lacks the same part in every unit, or has its phases rescaled.** -/
theorem Run.breakdown_rescale (c : ℚ) (r : Run ℚ) :
    (r.rescale c).breakdown = r.breakdown.map (·.rescale c) := by
  unfold breakdown rescale
  cases r.report with
  | none => rfl
  | some report => exact report.complete_rescale c

theorem Run.complete_rescale (c : ℚ) {r : Run ℚ} (h : r.Complete) : (r.rescale c).Complete := by
  obtain ⟨b, hb⟩ := h
  refine ⟨b.rescale c, ?_⟩
  rw [r.breakdown_rescale, hb]
  rfl

/-! ### Groups before and after -/

/-- A group of runs and the same group in another unit of time. -/
structure Rescaled (c : ℚ) where
  before : RunGroup ℚ
  after : RunGroup ℚ
  file : after.file = before.file
  config : after.config = before.config
  nodeCount : after.nodeCount = before.nodeCount
  loc : after.loc = before.loc
  breakdown : after.breakdown = before.breakdown.rescale c
  duration : after.durationMean? = before.durationMean?.map (c * ·)
  withoutSimilarity : after.stat? "duration_wo_similarity" "mean" =
    (before.stat? "duration_wo_similarity" "mean").map (c * ·)

theorem Rescaled.phaseTime_eq {c : ℚ} (z : Rescaled c) :
    z.after.breakdown.phaseTime = c * z.before.breakdown.phaseTime := by
  rw [z.breakdown]
  exact (mul_add c _ _).symm

theorem groupRuns_rescale (c : ℚ) (runs : List (Run ℚ)) :
    groupRuns (runs.map (Run.rescale c)) = (groupRuns runs).map (Group.map (Run.rescale c)) := by
  unfold groupRuns
  rw [groupBy_map, List.flatMap_map, List.map_flatMap]
  refine List.flatMap_congr fun t _ => ?_
  rw [Group.members_map, groupBy_map]
  rfl

variable [OpenFunctions]

section

variable {σ τ : Type} [Measured τ ℚ]

/-- The values of a metric that is multiplied by a factor are. -/
theorem Metric.values_map {m : Metric τ ℚ} {k : ℚ} {f g : σ → τ} {xs : List σ}
    (h : ∀ x ∈ xs, m.value? (g x) = (m.value? (f x)).map (k * ·)) :
    m.values (xs.map g) = (m.values (xs.map f)).map (k * ·) := by
  unfold Metric.values
  rw [List.filterMap_map, List.filterMap_map, List.map_filterMap]
  exact List.filterMap_congr h

/-- In exact arithmetic no value of a metric is dropped. -/
theorem Metric.value?_eq (m : Metric τ ℚ) (x : τ) : m.value? x = match m.source with
    | .field path => Measured.fieldValue x path
    | .computed value? => value? x := by
  have hkept : ∀ v : Option ℚ, v.filter isFinite = v := by
    intro v
    cases v with
    | none => rfl
    | some v => rfl
  obtain ⟨name, source⟩ := m
  cases source with
  | field path => exact hkept _
  | computed value? => exact hkept _

end

/-- The mean of a metric over a group follows the unit of its values. -/
theorem stat?_mean_rescale {c : ℚ} (hc : 0 < c) {catalog : Catalog (Run ℚ) ℚ}
    {m : Metric (Run ℚ) ℚ} (hm : m ∈ catalog.metrics)
    (hvalue : ∀ r, m.value? (r.rescale c) = (m.value? r).map (c * ·)) {runs : List (Run ℚ)}
    {g g' : RunGroup ℚ} (h : g.Summarizes catalog runs)
    (h' : g'.Summarizes catalog (runs.map (Run.rescale c))) :
    g'.stat? m.name "mean" = (g.stat? m.name "mean").map (c * ·) := by
  have hmean : ∀ {g : RunGroup ℚ} {runs : List (Run ℚ)}, g.Summarizes catalog runs →
      g.stat? m.name "mean" = (Description.ofSamples (m.values runs)).map (·.mean) :=
    fun h => RunGroup.stat?_eq_map_get (h.stats m hm) .mean
  have hvalues : m.values (runs.map (Run.rescale c)) = (m.values runs).map (c * ·) := by
    have hmap : m.values (runs.map (Run.rescale c)) = (m.values (runs.map id)).map (c * ·) :=
      Metric.values_map fun r _ => hvalue r
    rwa [List.map_id] at hmap
  rw [hmean h, hmean h', hvalues, description_mean_map (Affine.scaling hc)]

/-- The standard catalog of the metrics that are aggregated. -/
def standardAggregation : Catalog (Run ℚ) ℚ := ⟨aggregationMetrics, aggregationMetrics_distinct⟩

theorem Run.durationMs_rescale (c : ℚ) (r : Run ℚ) : (r.rescale c).durationMs = c * r.durationMs :=
  mul_assoc c r.durationSecs ((1000 : Nat) : ℚ)

theorem Run.durationWithoutSimilarity_rescale (c : ℚ) (r : Run ℚ) :
    (r.rescale c).durationWithoutSimilarity? = r.durationWithoutSimilarity?.map (c * ·) := by
  unfold durationWithoutSimilarity? leaves?
  rw [r.durationMs_rescale]
  unfold rescale
  cases r.report with
  | none => rfl
  | some report =>
  show ((report.rescale c).leaves >>= _) = Option.map _ (report.leaves >>= _)
  unfold PhaseReport.rescale
  cases report.leaves with
  | none => rfl
  | some leaves =>
  show ((leaves.rescale c).similarityTime >>= _) = Option.map _ (leaves.similarityTime >>= _)
  unfold LeavesReport.rescale
  cases leaves.similarityTime with
  | none => rfl
  | some time => exact congrArg some (mul_sub c r.durationMs time).symm

/-- **A group of complete runs is aggregated alike in both units.** -/
theorem aggregateGroup_rescale {c : ℚ} (hc : 0 < c) (g : Group String (Run ℚ))
    (h : ∀ r ∈ g.members, r.Complete) :
    ∃ z : Rescaled c, aggregateGroup standardAggregation g = .ok z.before ∧
      aggregateGroup standardAggregation (g.map (Run.rescale c)) = .ok z.after := by
  have h' : ∀ r ∈ (g.map (Run.rescale c)).members, r.Complete := by
    intro r hr
    rw [Group.members_map] at hr
    obtain ⟨r, hmem, rfl⟩ := List.mem_map.mp hr
    exact Run.complete_rescale c (h r hmem)
  obtain ⟨out, hout, hsum, -⟩ := aggregateGroup_of_complete standardAggregation g h
  obtain ⟨out', hout', hsum', -⟩ := aggregateGroup_of_complete standardAggregation _ h'
  obtain ⟨r, hr, hrep⟩ := hsum.first
  obtain ⟨r', hr', hrep'⟩ := hsum'.first
  cases hr
  cases hr'
  have hbreakdown : out'.breakdown = out.breakdown.rescale c := by
    have hok : (g.first.rescale c).breakdown = .ok out'.breakdown := hrep'.breakdown
    rw [g.first.breakdown_rescale, hrep.breakdown] at hok
    exact (Except.ok.inj hok).symm
  refine ⟨⟨out, out', hrep'.file.trans hrep.file.symm, hrep'.config.trans hrep.config.symm,
    hrep'.nodeCount.trans hrep.nodeCount.symm, hrep'.loc.trans hrep.loc.symm, hbreakdown, ?_, ?_⟩,
    hout, hout'⟩
  · refine stat?_mean_rescale hc (m := ⟨"duration", .computed fun r => some r.durationMs⟩)
      (by simp [standardAggregation, aggregationMetrics]) (fun r => ?_) hsum hsum'
    rw [Metric.value?_eq, Metric.value?_eq]
    exact congrArg some (r.durationMs_rescale c)
  · refine stat?_mean_rescale hc
      (m := ⟨"duration_wo_similarity", .computed Run.durationWithoutSimilarity?⟩)
      (by simp [standardAggregation, aggregationMetrics]) (fun r => ?_) hsum hsum'
    rw [Metric.value?_eq, Metric.value?_eq]
    exact r.durationWithoutSimilarity_rescale c

/-- **Complete runs aggregate to the same groups in both units.** -/
theorem aggregate_rescale {c : ℚ} (hc : 0 < c) (runs : List (Run ℚ))
    (complete : ∀ r ∈ runs, r.Complete) :
    ∃ zs : List (Rescaled c), aggregate standardAggregation runs = .ok (zs.map (·.before)) ∧
      aggregate standardAggregation (runs.map (Run.rescale c)) = .ok (zs.map (·.after)) := by
  have hpass : ∀ g ∈ groupRuns runs, ∃ z : Rescaled c,
      aggregateGroup standardAggregation g = .ok z.before ∧
        aggregateGroup standardAggregation (g.map (Run.rescale c)) = .ok z.after := by
    intro g hg
    refine aggregateGroup_rescale hc g fun r hr => complete r ?_
    rw [groupRuns_members hg] at hr
    exact (List.mem_filter.mp hr).1
  obtain ⟨zs, hzs, hzs'⟩ := mapM_ok_both hpass
  -- The sort looks at node counts only, and they are the same in both units.
  have hsort : ∀ p : Rescaled c → RunGroup ℚ, (∀ z, (p z).nodeCount = z.before.nodeCount) →
      byFallingNodeCount (zs.map p) =
        (zs.mergeSort fun z z' => decide (z'.before.nodeCount ≤ z.before.nodeCount)).map p := by
    intro p hp
    refine (List.map_mergeSort fun z _ z' _ => ?_).symm
    rw [hp, hp]
  refine ⟨zs.mergeSort fun z z' => decide (z'.before.nodeCount ≤ z.before.nodeCount), ?_, ?_⟩
  · unfold aggregate
    rw [hzs]
    exact congrArg Except.ok (hsort _ fun _ => rfl)
  · unfold aggregate
    rw [groupRuns_rescale, List.mapM_map]
    show ((groupRuns runs).mapM fun g =>
      aggregateGroup standardAggregation (g.map (Run.rescale c))) >>= _ = _
    rw [hzs']
    exact congrArg Except.ok (hsort _ fun z => z.nodeCount)

end RunCompare
