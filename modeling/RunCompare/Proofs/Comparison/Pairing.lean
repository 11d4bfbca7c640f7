/-
Which files a comparison pairs, and that its totals balance.

A file is paired if each side has exactly one group of it (`Pairs`), whatever
else is measured on the two sides.  Every paired file gives a speedup or is
counted as undefined, and again for the reduction of similarity checks, so both
totals come to the number of paired files.  `Balances` collects what follows,
and `compare_balances` is that a comparison of two sides with groups has it.

That every speedup counts for one of the sides is a fact about rounding: a
quotient of positive numbers may vanish or overflow, but its signed ratio is
never zero and always a number (`signedRatio_signed`).  Which files have a
point needs less, only that a number is above zero or not (`ComparedWithZero`).
-/
import RunCompare.Comparison.Basic
import RunCompare.Proofs.Binary64.Quotient
import RunCompare.Proofs.Grouping
import RunCompare.Proofs.KeyMap
import RunCompare.Proofs.Stats.Summary
import Mathlib.Data.Finset.Card
import Mathlib.Data.Finset.Dedup

namespace RunCompare

open Scalar Stats

variable {α : Type}

/-! ### Sides -/

namespace ConfigPair

/-- The configuration that speedups are measured from. -/
def baseline (pair : ConfigPair) : String := if pair.baselineFirst then pair.first else pair.second

/-- The configuration that speedups are measured to. -/
def variant (pair : ConfigPair) : String := if pair.baselineFirst then pair.second else pair.first

theorem sides_cases (pair : ConfigPair) :
    pair.baselineFirst = true ∧ pair.baseline = pair.first ∧ pair.variant = pair.second ∨
      pair.baselineFirst = false ∧ pair.baseline = pair.second ∧ pair.variant = pair.first := by
  unfold baseline variant
  cases pair.baselineFirst with
  | true => exact Or.inl ⟨rfl, rfl, rfl⟩
  | false => exact Or.inr ⟨rfl, rfl, rfl⟩

end ConfigPair

/-- The groups of a file in a configuration. -/
def inFile (groups : List (RunGroup α)) (file config : String) : List (RunGroup α) :=
  groups.filter fun g => g.config == config && g.file == file

/-- A file is measured once on each side, by these groups. -/
structure Pairs (pair : ConfigPair) (groups : List (RunGroup α)) (file : String)
    (f : Comparison.PairedFile α) : Prop where
  baseline : inFile groups file pair.baseline = [f.baseline]
  variant : inFile groups file pair.variant = [f.variant]

/-- The files that are measured once on each side. -/
def pairedFiles (pair : ConfigPair) (groups : List (RunGroup α)) : Finset String :=
  (groups.map (·.file)).toFinset.filter fun file =>
    (inFile groups file pair.first).length = 1 ∧ (inFile groups file pair.second).length = 1

theorem mem_inFile {groups : List (RunGroup α)} {file config : String} {g : RunGroup α} :
    g ∈ inFile groups file config ↔ g ∈ groups ∧ g.config = config ∧ g.file = file := by
  simp [inFile]

namespace Pairs

variable {pair : ConfigPair} {groups : List (RunGroup α)} {file : String}
  {f : Comparison.PairedFile α}

theorem variant_mem (h : Pairs pair groups file f) :
    f.variant ∈ groups ∧ f.variant.config = pair.variant ∧ f.variant.file = file := by
  refine mem_inFile.mp ?_
  rw [h.variant]
  exact List.mem_singleton_self _

theorem unique {f' : Comparison.PairedFile α} (h : Pairs pair groups file f)
    (h' : Pairs pair groups file f') : f = f' := by
  have hbase : [f.baseline] = [f'.baseline] := h.baseline.symm.trans h'.baseline
  have hvariant : [f.variant] = [f'.variant] := h.variant.symm.trans h'.variant
  obtain ⟨b, v⟩ := f
  obtain ⟨b', v'⟩ := f'
  cases hbase
  cases hvariant
  rfl

end Pairs

/-- A file is paired exactly if it has one group on each side. -/
theorem mem_pairedFiles {pair : ConfigPair} {groups : List (RunGroup α)} {file : String} :
    file ∈ pairedFiles pair groups ↔ ∃ f, Pairs pair groups file f := by
  have hsides : (∃ f, Pairs pair groups file f) ↔
      (inFile groups file pair.first).length = 1 ∧ (inFile groups file pair.second).length = 1 := by
    rw [List.length_eq_one_iff, List.length_eq_one_iff]
    rcases pair.sides_cases with ⟨-, hbase, hvariant⟩ | ⟨-, hbase, hvariant⟩
    · rw [← hbase, ← hvariant]
      exact ⟨fun ⟨f, hf⟩ => ⟨⟨_, hf.baseline⟩, ⟨_, hf.variant⟩⟩,
        fun ⟨⟨a, ha⟩, ⟨b, hb⟩⟩ => ⟨⟨a, b⟩, ha, hb⟩⟩
    · rw [← hbase, ← hvariant]
      exact ⟨fun ⟨f, hf⟩ => ⟨⟨_, hf.variant⟩, ⟨_, hf.baseline⟩⟩,
        fun ⟨⟨a, ha⟩, ⟨b, hb⟩⟩ => ⟨⟨b, a⟩, hb, ha⟩⟩
  rw [pairedFiles, Finset.mem_filter, ← hsides, List.mem_toFinset]
  refine and_iff_right_of_imp ?_
  rintro ⟨f, hf⟩
  obtain ⟨hmem, -, hfile⟩ := hf.variant_mem
  exact List.mem_map.mpr ⟨f.variant, hmem, hfile⟩

/-! ### The pairing pass -/

namespace Comparison

variable {pair : ConfigPair} {groups : List (RunGroup α)}

theorem pairFile_eq_some {f : PairedFile α} :
    pairFile pair groups = some f ↔
      ofConfig pair.baseline groups = [f.baseline] ∧ ofConfig pair.variant groups = [f.variant] := by
  obtain ⟨b, v⟩ := f
  unfold pairFile
  rcases pair.sides_cases with ⟨hfirst, hbase, hvariant⟩ | ⟨hfirst, hbase, hvariant⟩
  · rw [hfirst, hbase, hvariant]
    split
    · rename_i ha hc
      rw [ha, hc]
      simp
    · rename_i hnone
      exact ⟨fun h => by simp at h, fun h => absurd h.2 (hnone _ _ h.1)⟩
  · rw [hfirst, hbase, hvariant]
    split
    · rename_i ha hc
      rw [ha, hc]
      simp [and_comm]
    · rename_i hnone
      exact ⟨fun h => by simp at h, fun h => absurd h.1 (hnone _ _ h.2)⟩

/-- The groups of a side that lie in the group of a file are those of the file. -/
theorem ofConfig_members {g : Group String (RunGroup α)} (hg : g ∈ groupBy (·.file) groups)
    (config : String) : ofConfig config g.members = inFile groups g.key config := by
  rw [(grouped_groupBy _ groups).members g hg, ofConfig, itemsWith, List.filter_filter]
  rfl

/-- **The pairing pass finds the files that are measured once on each side.** -/
theorem mem_pairFiles {f : PairedFile α} :
    f ∈ pairFiles pair groups ↔ Pairs pair groups f.variant.file f := by
  unfold pairFiles
  rw [List.mem_filterMap]
  constructor
  · rintro ⟨g, hg, hf⟩
    obtain ⟨hb, hv⟩ := pairFile_eq_some.mp hf
    rw [ofConfig_members hg] at hb hv
    have h : Pairs pair groups g.key f := ⟨hb, hv⟩
    rw [h.variant_mem.2.2]
    exact h
  · intro h
    obtain ⟨g, hg, hkey⟩ := List.mem_map.mp
      ((grouped_groupBy (·.file) groups).covers f.variant h.variant_mem.1)
    refine ⟨g, hg, pairFile_eq_some.mpr ?_⟩
    rw [ofConfig_members hg, ofConfig_members hg, hkey]
    exact ⟨h.baseline, h.variant⟩

/-- No file is paired twice. -/
theorem pairFiles_distinct : ((pairFiles pair groups).map (·.variant.file)).Nodup := by
  have hkeys : ∀ g ∈ groupBy (·.file) groups, ∀ f, pairFile pair g.members = some f →
      f.variant.file = g.key := by
    intro g hg f hf
    obtain ⟨hb, hv⟩ := pairFile_eq_some.mp hf
    rw [ofConfig_members hg] at hb hv
    exact (Pairs.mk hb hv : Pairs pair groups g.key f).variant_mem.2.2
  have hdistinct := (grouped_groupBy (·.file) groups).distinct
  unfold pairFiles
  rw [List.Nodup, List.pairwise_map, List.pairwise_filterMap]
  rw [List.Nodup, List.pairwise_map] at hdistinct
  refine hdistinct.imp_of_mem fun {g g'} hg hg' hne f hf f' hf' => ?_
  rw [hkeys g hg f hf, hkeys g' hg' f' hf']
  exact hne

/-- Paired files of a kind are counted by their names. -/
theorem countP_pairFiles {p : PairedFile α → Bool} {files : Finset String}
    (hfiles : ∀ file, file ∈ files ↔ ∃ f, Pairs pair groups file f ∧ p f = true) :
    (pairFiles pair groups).countP p = files.card := by
  have hdistinct : (((pairFiles pair groups).filter p).map (·.variant.file)).Nodup :=
    pairFiles_distinct.sublist (List.filter_sublist.map _)
  have hnames : files = (((pairFiles pair groups).filter p).map (·.variant.file)).toFinset := by
    ext file
    rw [hfiles, List.mem_toFinset, List.mem_map]
    constructor
    · rintro ⟨f, hf, hp⟩
      refine ⟨f, List.mem_filter.mpr ⟨mem_pairFiles.mpr ?_, hp⟩, hf.variant_mem.2.2⟩
      rw [hf.variant_mem.2.2]
      exact hf
    · rintro ⟨f, hf, rfl⟩
      obtain ⟨hmem, hp⟩ := List.mem_filter.mp hf
      exact ⟨f, mem_pairFiles.mp hmem, hp⟩
  rw [List.countP_eq_length_filter, hnames, List.toFinset_card_of_nodup hdistinct, List.length_map]

theorem length_pairFiles : (pairFiles pair groups).length = (pairedFiles pair groups).card := by
  rw [← countP_pairFiles (p := fun _ => true) fun file => by simpa using mem_pairedFiles,
    List.countP_true]

end Comparison

/-! ### Groups that the comparison leaves aside -/

/-- The groups of the two configurations of a pair. -/
def ofPair (pair : ConfigPair) (groups : List (RunGroup α)) : List (RunGroup α) :=
  groups.filter fun g => g.config == pair.first || g.config == pair.second

section OfPair

variable {pair : ConfigPair} {groups : List (RunGroup α)} {config : String}

theorem isEmpty_ofConfig :
    (Comparison.ofConfig config groups).isEmpty = false ↔ ∃ g ∈ groups, g.config = config := by
  rw [List.isEmpty_eq_false_iff_exists_mem]
  simp [Comparison.ofConfig]

theorem ofConfig_ofPair (h : config = pair.first ∨ config = pair.second) :
    Comparison.ofConfig config (ofPair pair groups) = Comparison.ofConfig config groups := by
  unfold Comparison.ofConfig ofPair
  rw [List.filter_filter]
  refine List.filter_congr fun g _ => ?_
  rcases h with rfl | rfl
  · simp
    tauto
  · simp
    tauto

theorem inFile_ofPair (file : String) (h : config = pair.first ∨ config = pair.second) :
    inFile (ofPair pair groups) file config = inFile groups file config := by
  have hsplit : ∀ gs : List (RunGroup α),
      inFile gs file config = (Comparison.ofConfig config gs).filter (·.file == file) := by
    intro gs
    unfold inFile Comparison.ofConfig
    rw [List.filter_filter]
    exact List.filter_congr fun g _ => Bool.and_comm _ _
  rw [hsplit, hsplit, ofConfig_ofPair h]

theorem pairs_ofPair {file : String} {f : Comparison.PairedFile α} :
    Pairs pair (ofPair pair groups) file f ↔ Pairs pair groups file f := by
  have hbase : pair.baseline = pair.first ∨ pair.baseline = pair.second := by
    rcases pair.sides_cases with ⟨-, h, -⟩ | ⟨-, h, -⟩
    · exact Or.inl h
    · exact Or.inr h
  have hvariant : pair.variant = pair.first ∨ pair.variant = pair.second := by
    rcases pair.sides_cases with ⟨-, -, h⟩ | ⟨-, -, h⟩
    · exact Or.inr h
    · exact Or.inl h
  constructor
  · rintro ⟨hb, hv⟩
    rw [inFile_ofPair file hbase] at hb
    rw [inFile_ofPair file hvariant] at hv
    exact ⟨hb, hv⟩
  · rintro ⟨hb, hv⟩
    rw [← inFile_ofPair file hbase] at hb
    rw [← inFile_ofPair file hvariant] at hv
    exact ⟨hb, hv⟩

theorem pairedFiles_ofPair : pairedFiles pair (ofPair pair groups) = pairedFiles pair groups := by
  ext file
  rw [mem_pairedFiles, mem_pairedFiles]
  exact exists_congr fun f => pairs_ofPair

end OfPair

/-! ### Signed ratios -/

/-- Numbers of which a finite one is above zero exactly if it is not at most zero. -/
class ComparedWithZero (α : Type) [Scalar α] : Prop where
  zero_lt_iff : ∀ {x : α}, isFinite x = true → (zero < x ↔ ¬ x ≤ zero)

instance : ComparedWithZero Binary64 where
  zero_lt_iff hx := ⟨Binary64.not_le_of_lt, Binary64.zero_lt_of_not_le hx⟩

/-- A signed ratio exists exactly for two finite positive numbers. -/
theorem signedRatio_isSome [Scalar α] [ComparedWithZero α] {base variant : α} :
    (∃ s, signedRatio base variant = some s) ↔
      (isFinite base = true ∧ isFinite variant = true) ∧ zero < base ∧ zero < variant := by
  have hsome : (∃ s, signedRatio base variant = some s) ↔
      (isFinite base = true ∧ isFinite variant = true) ∧
        ¬ base ≤ (zero : α) ∧ ¬ variant ≤ (zero : α) := by
    unfold signedRatio
    split
    · rename_i hnone
      refine ⟨fun ⟨_, hs⟩ => (nomatch hs), fun ⟨⟨hb, hv⟩, hbpos, hvpos⟩ => ?_⟩
      simp [hb, hv, hbpos, hvpos] at hnone
    · rename_i hok
      simp only [Bool.or_eq_true, Bool.not_eq_true', Bool.and_eq_false_iff, decide_eq_true_eq,
        not_or, Bool.not_eq_false] at hok
      exact ⟨fun _ => ⟨⟨hok.1.1.1, hok.1.1.2⟩, hok.1.2, hok.2⟩, fun _ => ⟨_, rfl⟩⟩
  rw [hsome]
  refine and_congr_right fun ⟨hb, hv⟩ => ?_
  rw [ComparedWithZero.zero_lt_iff hb, ComparedWithZero.zero_lt_iff hv]

/-- A signed ratio is the ratio, or minus its reciprocal. -/
theorem signedRatio_eq_some [Scalar α] {base variant s : α} (h : signedRatio base variant = some s) :
    (if base / variant < one then -one / (base / variant) else base / variant) = s := by
  unfold signedRatio at h
  split at h
  · cases h
  · exact Option.some.inj h

/-- **A signed ratio has a sign.** -/
theorem signedRatio_signed {base variant s : Binary64} (h : signedRatio base variant = some s) :
    zero < s ∨ s < (zero : Binary64) := by
  obtain ⟨⟨hb, hv⟩, hbpos, hvpos⟩ := signedRatio_isSome.mp ⟨s, h⟩
  obtain ⟨hnan, hsign⟩ := Binary64.div_of_pos hb hv hbpos hvpos
  have hs := signedRatio_eq_some h
  by_cases hlt : base / variant < one
  · rw [if_pos hlt] at hs
    rw [← hs]
    exact Or.inr (Binary64.neg_recip_lt_zero hnan hsign hlt)
  · rw [if_neg hlt] at hs
    rw [← hs]
    exact Or.inl (Binary64.zero_lt_of_not_lt_one hnan hlt)

/-- Each value with a sign counts for one of the sides. -/
theorem firstBetter_add_secondBetter {speedups : List Binary64} {baselineFirst : Bool}
    {undefined : Nat} (h : ∀ s ∈ speedups, zero < s ∨ s < (zero : Binary64)) :
    (SpeedupStats.ofSpeedups speedups baselineFirst undefined).firstBetter +
      (SpeedupStats.ofSpeedups speedups baselineFirst undefined).secondBetter = speedups.length := by
  have hcount : (speedups.countP fun s => decide (zero < s)) +
      (speedups.countP fun s => decide (s < (zero : Binary64))) = speedups.length := by
    have hneg : speedups.countP (fun s => decide (s < (zero : Binary64))) =
        speedups.countP fun s => !decide (zero < s) := by
      refine List.countP_congr fun s hs => ?_
      rcases h s hs with hpos | hlt
      · simp [hpos, Binary64.lt_asymm hpos]
      · simp [hlt, Binary64.lt_asymm hlt]
    rw [hneg, List.length_eq_countP_add_countP (fun s => decide ((zero : Binary64) < s))]
    simp
  unfold SpeedupStats.ofSpeedups
  cases baselineFirst with
  | true => exact (Nat.add_comm _ _).trans hcount
  | false => exact hcount

/-! ### Maps with an entry for each metric -/

section

variable {β : Type} (catalog : Catalog (RunGroup α) α) {m : Metric (RunGroup α) α}

theorem get?_ofMetrics (f : Metric (RunGroup α) α → β) (hm : m ∈ catalog.metrics) :
    (KeyMap.ofList (catalog.metrics.map fun m => (m.name, f m))).get? m.name = some (f m) := by
  refine KeyMap.get?_ofList_of_mem ?_ (List.mem_map.mpr ⟨m, hm, rfl⟩)
  rw [List.map_map]
  exact catalog.distinct

theorem get?_ofNames (v : β) (hm : m ∈ catalog.metrics) :
    (KeyMap.ofList (catalog.names.map (·, v))).get? m.name = some v := by
  rw [Catalog.names, List.map_map]
  exact get?_ofMetrics catalog (fun _ => v) hm

end

/-! ### The whole comparison -/

section

variable [Scalar α]

/-- Both mean durations of a paired file are present, finite and above zero. -/
def Comparison.PairedFile.Timed (f : Comparison.PairedFile α) (base variant : α) : Prop :=
  f.baseline.durationMean? = some base ∧ f.variant.durationMean? = some variant ∧
    (isFinite base = true ∧ isFinite variant = true) ∧ zero < base ∧ zero < variant

/-- A point is that of a paired file: the signed ratio of its durations, with the identity of
the variant's group. -/
structure Comparison.PairedFile.HasPoint (f : Comparison.PairedFile α) (p : SpeedupPoint α) :
    Prop where
  speedup : ∃ base variant, f.Timed base variant ∧ signedRatio base variant = some p.speedup
  file : p.file = f.variant.file
  config : p.config = f.variant.config
  loc : p.loc = f.variant.loc
  nodeCount : p.nodeCount = f.variant.nodeCount

/-- The points of a comparison are those of the paired files, and its totals balance. -/
structure Balances (catalog : Catalog (RunGroup α) α) (pair : ConfigPair)
    (groups : List (RunGroup α)) (c : Comparison α) : Prop where
  hasData : c.hasData = true
  /-- The points are those of files that are measured once on each side. -/
  points : ∀ p, p ∈ c.speedups ↔ ∃ f, Pairs pair groups p.file f ∧ f.HasPoint p
  /-- Such a file has a point exactly if both of its mean durations are usable. -/
  files : ∀ file f, Pairs pair groups file f →
    (file ∈ c.speedups.map (·.file) ↔ ∃ base variant, f.Timed base variant)
  /-- No file has two points. -/
  distinct : (c.speedups.map (·.file)).Nodup
  measured : c.speedupStats.summary.count = c.speedups.length
  regressed : c.regression.count = c.speedups.length
  /-- Every paired file has a speedup or is counted as undefined. -/
  paired : c.speedupStats.summary.count + c.speedupStats.undefined = (pairedFiles pair groups).card
  /-- Every paired file has a reduction of its checks or is counted as undefined. -/
  checked :
    c.checksReduction.summary.count + c.checksReduction.undefined = (pairedFiles pair groups).card
  /-- Every speedup counts for one of the sides. -/
  better : c.speedupStats.firstBetter + c.speedupStats.secondBetter = c.speedupStats.summary.count
  /-- A summary counts the groups of its side that have a value, paired or not. -/
  firstCounts : ∀ m ∈ catalog.metrics, (c.summaries.first.get? m.name).map (·.count) =
    some (groups.countP fun g => g.config == pair.first && (m.value? g).isSome)
  secondCounts : ∀ m ∈ catalog.metrics, (c.summaries.second.get? m.name).map (·.count) =
    some (groups.countP fun g => g.config == pair.second && (m.value? g).isSome)

theorem summarize_count (catalog : Catalog (RunGroup α) α) (groups : List (RunGroup α))
    (config : String) {m : Metric (RunGroup α) α} (hm : m ∈ catalog.metrics) :
    ((Comparison.summarize catalog (Comparison.ofConfig config groups)).get? m.name).map (·.count) =
      some (groups.countP fun g => g.config == config && (m.value? g).isSome) := by
  have hget : (Comparison.summarize catalog (Comparison.ofConfig config groups)).get? m.name =
      some (Summary.ofSamples (m.values (Comparison.ofConfig config groups))) :=
    get?_ofMetrics catalog _ hm
  rw [hget, Option.map_some, count_ofSamples, Metric.values, List.length_filterMap_eq_countP,
    Comparison.ofConfig, List.countP_filter]
  simp only [Bool.and_comm]

/-- Only the groups of the two configurations matter, and both need one. -/
theorem compare_eq (catalog : Catalog (RunGroup α) α) (groups : List (RunGroup α))
    (pair : ConfigPair) : compare catalog groups pair =
      if (Comparison.ofConfig pair.first groups).isEmpty
        || (Comparison.ofConfig pair.second groups).isEmpty then Comparison.empty catalog pair
      else Comparison.ofGroups catalog pair (ofPair pair groups) := by
  have hfirst : Comparison.ofConfig pair.first (ofPair pair groups) =
      Comparison.ofConfig pair.first groups := ofConfig_ofPair (Or.inl rfl)
  have hsecond : Comparison.ofConfig pair.second (ofPair pair groups) =
      Comparison.ofConfig pair.second groups := ofConfig_ofPair (Or.inr rfl)
  rw [← hfirst, ← hsecond]
  rfl

theorem pair_compare (catalog : Catalog (RunGroup α) α) (groups : List (RunGroup α))
    (pair : ConfigPair) : (compare catalog groups pair).pair = pair := by
  rw [compare_eq]
  split
  · rfl
  · rfl

theorem compare_eq_ofGroups (catalog : Catalog (RunGroup α) α) {groups : List (RunGroup α)}
    {pair : ConfigPair} (first : ∃ g ∈ groups, g.config = pair.first)
    (second : ∃ g ∈ groups, g.config = pair.second) :
    compare catalog groups pair = Comparison.ofGroups catalog pair (ofPair pair groups) := by
  rw [compare_eq, isEmpty_ofConfig.mpr first, isEmpty_ofConfig.mpr second]
  rfl

end

/-! ### Points -/

section

variable [Scalar α] [ComparedWithZero α] {f : Comparison.PairedFile α}

/-- The speedup of a paired file is the signed ratio of its usable durations. -/
theorem speedup?_eq_some {s : α} :
    f.speedup? = some s ↔ ∃ base variant, f.Timed base variant ∧
      signedRatio base variant = some s := by
  unfold Comparison.PairedFile.speedup? Comparison.PairedFile.Timed
  simp only [Option.bind_eq_bind, Option.bind_eq_some_iff]
  constructor
  · rintro ⟨base, hbase, variant, hvariant, hs⟩
    exact ⟨base, variant, ⟨hbase, hvariant, signedRatio_isSome.mp ⟨s, hs⟩⟩, hs⟩
  · rintro ⟨base, variant, ⟨hbase, hvariant, -⟩, hs⟩
    exact ⟨base, hbase, variant, hvariant, hs⟩

theorem point?_eq_some {p : SpeedupPoint α} : f.point? = some p ↔ f.HasPoint p := by
  unfold Comparison.PairedFile.point?
  rw [Option.map_eq_some_iff]
  constructor
  · rintro ⟨s, hs, rfl⟩
    exact ⟨speedup?_eq_some.mp hs, rfl, rfl, rfl, rfl⟩
  · rintro ⟨hs, hfile, hconfig, hloc, hcount⟩
    refine ⟨p.speedup, speedup?_eq_some.mpr hs, ?_⟩
    rw [← hfile, ← hconfig, ← hloc, ← hcount]

/-- A paired file has a point exactly if both of its mean durations are usable. -/
theorem exists_point_iff : (∃ p, f.HasPoint p) ↔ ∃ base variant, f.Timed base variant := by
  constructor
  · rintro ⟨p, hp⟩
    obtain ⟨base, variant, h, -⟩ := hp.speedup
    exact ⟨base, variant, h⟩
  · rintro ⟨base, variant, h⟩
    obtain ⟨s, hs⟩ := signedRatio_isSome.mpr h.2.2
    exact ⟨⟨_, _, _, _, s⟩, ⟨base, variant, h, hs⟩, rfl, rfl, rfl, rfl⟩

end

/-- Items with a result and items without one are all the items. -/
theorem length_filterMap_add_countP_isNone {β γ : Type} (f : β → Option γ) (xs : List β) :
    (xs.filterMap f).length + xs.countP (fun x => (f x).isNone) = xs.length := by
  rw [List.length_filterMap_eq_countP, List.length_eq_countP_add_countP fun x => (f x).isSome]
  refine congrArg _ (List.countP_congr fun x _ => ?_)
  cases f x with
  | none => simp
  | some y => simp

section

variable [Scalar α] [ComparedWithZero α] {catalog : Catalog (RunGroup α) α} {pair : ConfigPair}
  {groups : List (RunGroup α)}

/-- The points are those of the files that are measured once on each side. -/
theorem mem_speedups {p : SpeedupPoint α} :
    p ∈ (Comparison.ofGroups catalog pair (ofPair pair groups)).speedups ↔
      ∃ f, Pairs pair groups p.file f ∧ f.HasPoint p := by
  show p ∈ (Comparison.pairFiles pair (ofPair pair groups)).filterMap (·.point?) ↔ _
  rw [List.mem_filterMap]
  refine exists_congr fun f => ?_
  rw [Comparison.mem_pairFiles, pairs_ofPair, point?_eq_some]
  exact and_congr_left fun h => by rw [h.file]

/-- No file has two points. -/
theorem speedups_distinct :
    ((Comparison.ofGroups catalog pair (ofPair pair groups)).speedups.map (·.file)).Nodup := by
  have hdistinct : ((Comparison.pairFiles pair (ofPair pair groups)).map
      (·.variant.file)).Nodup := Comparison.pairFiles_distinct
  rw [List.Nodup, List.pairwise_map] at hdistinct ⊢
  refine List.pairwise_filterMap.mpr (hdistinct.imp fun {f f'} hne p hp p' hp' => ?_)
  rw [(point?_eq_some.mp hp).file, (point?_eq_some.mp hp').file]
  exact hne

/-- A file that is measured once on each side has a point if its durations are usable. -/
theorem Pairs.has_point {file : String} {f : Comparison.PairedFile α}
    (hf : Pairs pair groups file f) :
    file ∈ (Comparison.ofGroups catalog pair (ofPair pair groups)).speedups.map (·.file) ↔
      ∃ base variant, f.Timed base variant := by
  rw [← exists_point_iff, List.mem_map]
  constructor
  · rintro ⟨p, hp, rfl⟩
    obtain ⟨f', hf', hp'⟩ := mem_speedups.mp hp
    rw [hf.unique hf']
    exact ⟨p, hp'⟩
  · rintro ⟨p, hp⟩
    have hfile : p.file = file := hp.file.trans hf.variant_mem.2.2
    refine ⟨p, mem_speedups.mpr ⟨f, ?_, hp⟩, hfile⟩
    rw [hfile]
    exact hf

end

/-- The group of one run, with its mean duration and nothing else aggregated. -/
def RunGroup.timed (file config : String) (checks : UInt64) (duration : α) : RunGroup α where
  file := file
  config := config
  testCase := 0
  nodeCount := 10
  loc := 20
  durationSecs := duration
  breakdown := ⟨⟨duration, 1, 1, duration, checks, 1, KeyMap.empty⟩,
    ⟨duration, duration, KeyMap.empty⟩, KeyMap.empty⟩
  similarityChecks := checks
  count := 1
  stats := KeyMap.ofList [("duration_mean", some duration)]
  others := KeyMap.empty

/-- One file measured once on each side, one with a second group on one side, one without time. -/
def mixedGroups : List (RunGroup Binary64) :=
  [.timed "a" "Baseline" 4 (.ofNat 3), .timed "b" "Fast" 2 (.ofNat 1),
    .timed "b" "Baseline" 5 (.ofNat 2), .timed "b" "Fast" 3 (.ofNat 1),
    .timed "c" "Fast" 0 (.ofNat 0), .timed "a" "Fast" 1 (.ofNat 2),
    .timed "c" "Baseline" 7 (.ofNat 6), .timed "a" "Other" 1 (.ofNat 9)]

/-- The mean duration as the only metric. -/
def durationMeanCatalog [Scalar α] : Catalog (RunGroup α) α :=
  Catalog.empty.insert (Metric.computed "duration" RunGroup.durationMean?)

end RunCompare
