/-
Which configuration a comparison calls the faster one.

The verdict on a file passes several turns: which name is the baseline, which group
of the file stands for it, the sign of the ratio, and which of the two counters a
sign belongs to.  Here it is stated without any of them, by the mean durations that
a file has under the two declared names (`meanIn`).  A file counts for the
configuration that is faster on it, and a tie counts for the variant, because a
ratio of one is a speedup.

`signedRatio_verdict` is what the sign and the size of one speedup say, and
`countP_speedups` turns counting points by their speedups into counting files by
their durations.
-/
import RunCompare.Proofs.Comparison.Pairing
import RunCompare.Proofs.Exact

namespace RunCompare

open Scalar Stats

/-! ### Durations of a file -/

/-- The mean duration of a file in a configuration that has exactly one group of it. -/
def meanIn (groups : List (RunGroup ℚ)) (file config : String) : Option ℚ :=
  match inFile groups file config with
  | [g] => g.durationMean?
  | _ => none

/-- A file has one group in each of two configurations, with these mean durations above zero. -/
structure Raced (groups : List (RunGroup ℚ)) (file first second : String) (a b : ℚ) : Prop where
  first : meanIn groups file first = some a
  second : meanIn groups file second = some b
  firstPos : 0 < a
  secondPos : 0 < b

/-- The files that two configurations have one group of each, by what holds of their mean
durations. -/
def filesWhere (groups : List (RunGroup ℚ)) (first second : String) (p : ℚ → ℚ → Bool) :
    Finset String :=
  (groups.map (·.file)).toFinset.filter fun file =>
    (meanIn groups file first).any fun a => (meanIn groups file second).any fun b =>
      decide (0 < a) && decide (0 < b) && p a b

variable {groups : List (RunGroup ℚ)} {file first second : String} {a b : ℚ}

theorem meanIn_eq_some :
    meanIn groups file first = some a ↔
      ∃ g, inFile groups file first = [g] ∧ g.durationMean? = some a := by
  unfold meanIn
  split
  · rename_i g hg
    rw [hg]
    simp
  · rename_i hnone
    refine iff_of_false (Option.some_ne_none a).symm ?_
    rintro ⟨g, hg, -⟩
    exact hnone g hg

namespace Raced

theorem swap (h : Raced groups file first second a b) : Raced groups file second first b a :=
  ⟨h.second, h.first, h.secondPos, h.firstPos⟩

theorem unique {a' b' : ℚ} (h : Raced groups file first second a b)
    (h' : Raced groups file first second a' b') : a = a' ∧ b = b' :=
  ⟨Option.some.inj (h.first.symm.trans h'.first), Option.some.inj (h.second.symm.trans h'.second)⟩

end Raced

section

variable {p q r : ℚ → ℚ → Bool}

theorem mem_filesWhere :
    file ∈ filesWhere groups first second p ↔
      ∃ a b, Raced groups file first second a b ∧ p a b = true := by
  unfold filesWhere
  rw [Finset.mem_filter, List.mem_toFinset]
  simp only [Option.any_eq_true, Bool.and_eq_true, decide_eq_true_eq]
  constructor
  · rintro ⟨-, a, ha, b, hb, ⟨hapos, hbpos⟩, hp⟩
    exact ⟨a, b, ⟨ha, hb, hapos, hbpos⟩, hp⟩
  · rintro ⟨a, b, h, hp⟩
    refine ⟨?_, a, h.first, b, h.second, ⟨h.firstPos, h.secondPos⟩, hp⟩
    obtain ⟨g, hg, -⟩ := meanIn_eq_some.mp h.first
    obtain ⟨hmem, -, hfile⟩ := mem_inFile.mp (hg ▸ List.mem_singleton_self g)
    exact List.mem_map.mpr ⟨g, hmem, hfile⟩

theorem filesWhere_swap :
    filesWhere groups second first p = filesWhere groups first second fun a b => p b a := by
  ext file
  rw [mem_filesWhere, mem_filesWhere]
  constructor
  · rintro ⟨a, b, h, hp⟩
    exact ⟨b, a, h.swap, hp⟩
  · rintro ⟨a, b, h, hp⟩
    exact ⟨b, a, h.swap, hp⟩

/-- Ties are ties from either side. -/
theorem filesWhere_ties_swap : (filesWhere groups second first fun a b => decide (a = b)) =
    filesWhere groups first second fun a b => decide (a = b) := by
  rw [filesWhere_swap]
  simp only [eq_comm]

/-- Files of two kinds that exclude each other. -/
theorem card_filesWhere (hor : ∀ a b, p a b = true ↔ q a b = true ∨ r a b = true)
    (hdisjoint : ∀ a b, q a b = true → ¬ r a b = true) :
    (filesWhere groups first second p).card =
      (filesWhere groups first second q).card + (filesWhere groups first second r).card := by
  have hunion : filesWhere groups first second p =
      filesWhere groups first second q ∪ filesWhere groups first second r := by
    ext file
    simp only [Finset.mem_union, mem_filesWhere, hor, and_or_left, exists_or]
  have hinter : Disjoint (filesWhere groups first second q) (filesWhere groups first second r) := by
    rw [Finset.disjoint_left]
    intro file hq hr
    obtain ⟨a, b, h, hq⟩ := mem_filesWhere.mp hq
    obtain ⟨a', b', h', hr⟩ := mem_filesWhere.mp hr
    obtain ⟨rfl, rfl⟩ := h.unique h'
    exact hdisjoint a b hq hr
  rw [hunion, Finset.card_union_of_disjoint hinter]

end

/-! ### One speedup -/

/-- What a speedup says of the two mean durations that it compares. -/
structure Verdict (base variant speedup : ℚ) : Prop where
  abs_eq : |speedup| = max base variant / min base variant
  one_le_iff : 1 ≤ speedup ↔ variant ≤ base
  le_neg_one_iff : speedup ≤ -1 ↔ base < variant
  lt_neg_one : base < variant → speedup < -1

namespace Verdict

variable {base variant s : ℚ}

theorem pos_iff (h : Verdict base variant s) : 0 < s ↔ variant ≤ base := by
  rw [← h.one_le_iff]
  refine ⟨fun hs => ?_, fun hs => lt_of_lt_of_le one_pos hs⟩
  by_contra hlt
  have hslow : s ≤ -1 := h.le_neg_one_iff.mpr (not_le.mp (mt h.one_le_iff.mpr hlt))
  linarith

theorem neg_iff (h : Verdict base variant s) : s < 0 ↔ base < variant := by
  refine ⟨fun hs => ?_, fun hlt => ?_⟩
  · exact not_le.mp fun hle => absurd (h.pos_iff.mpr hle) (not_lt.mpr hs.le)
  · have hslow := h.lt_neg_one hlt
    linarith

end Verdict

section

variable [OpenFunctions]

instance : ComparedWithZero ℚ where
  zero_lt_iff _ := not_le.symm

/-- **The sign of a speedup tells which side is faster, and its size by how much.** -/
theorem signedRatio_verdict {base variant s : ℚ} (hbase : 0 < base) (hvariant : 0 < variant)
    (h : signedRatio base variant = some s) : Verdict base variant s := by
  have hs := signedRatio_eq_some h
  rw [one_eq] at hs
  by_cases hlt : base < variant
  · -- The variant is slower: the ratio is below one, and its reciprocal above it.
    rw [if_pos ((div_lt_one hvariant).mpr hlt), neg_div, one_div_div] at hs
    have hone : 1 < variant / base := (one_lt_div hbase).mpr hlt
    subst hs
    refine ⟨?_, iff_of_false ?_ (not_le.mpr hlt), iff_of_true ?_ hlt, fun _ => neg_lt_neg hone⟩
    · rw [abs_neg, abs_of_pos (one_pos.trans hone), max_eq_right hlt.le, min_eq_left hlt.le]
    · linarith
    · linarith
  · have hle : variant ≤ base := not_lt.mp hlt
    rw [if_neg (mt (div_lt_one hvariant).mp hlt)] at hs
    have hone : 1 ≤ base / variant := (one_le_div hvariant).mpr hle
    subst hs
    refine ⟨?_, iff_of_true hone hle, iff_of_false ?_ hlt, fun h => absurd h hlt⟩
    · rw [abs_of_pos (one_pos.trans_le hone), max_eq_left hle, min_eq_right hle]
    · linarith

/-! ### Points and files -/

variable {pair : ConfigPair}

/-- A paired file with usable durations is one with mean durations above zero. -/
theorem raced_iff {base variant : ℚ} :
    Raced groups file pair.baseline pair.variant base variant ↔
      ∃ f, Pairs pair groups file f ∧ f.Timed base variant := by
  constructor
  · rintro ⟨hb, hv, hbase, hvariant⟩
    obtain ⟨g, hg, hmean⟩ := meanIn_eq_some.mp hb
    obtain ⟨g', hg', hmean'⟩ := meanIn_eq_some.mp hv
    exact ⟨⟨g, g'⟩, ⟨hg, hg'⟩, hmean, hmean', ⟨rfl, rfl⟩, by rwa [zero_eq], by rwa [zero_eq]⟩
  · rintro ⟨f, ⟨hb, hv⟩, hmean, hmean', -, hbase, hvariant⟩
    rw [zero_eq] at hbase hvariant
    exact ⟨meanIn_eq_some.mpr ⟨_, hb, hmean⟩, meanIn_eq_some.mpr ⟨_, hv, hmean'⟩, hbase, hvariant⟩

variable {catalog : Catalog (RunGroup ℚ) ℚ}

/-- A point gives the verdict on the durations of its file. -/
theorem verdict_of_mem {p : SpeedupPoint ℚ}
    (hp : p ∈ (Comparison.ofGroups catalog pair (ofPair pair groups)).speedups) :
    ∃ base variant, Raced groups p.file pair.baseline pair.variant base variant ∧
      Verdict base variant p.speedup := by
  obtain ⟨f, hf, hpoint⟩ := mem_speedups.mp hp
  obtain ⟨base, variant, htimed, hratio⟩ := hpoint.speedup
  have hraced := raced_iff.mpr ⟨f, hf, htimed⟩
  exact ⟨base, variant, hraced, signedRatio_verdict hraced.firstPos hraced.secondPos hratio⟩

/-- The files with a point are those with mean durations above zero. -/
theorem mem_files_iff :
    file ∈ (Comparison.ofGroups catalog pair (ofPair pair groups)).speedups.map (·.file) ↔
      ∃ base variant, Raced groups file pair.baseline pair.variant base variant := by
  constructor
  · intro hfile
    obtain ⟨p, hp, rfl⟩ := List.mem_map.mp hfile
    obtain ⟨base, variant, h, -⟩ := verdict_of_mem hp
    exact ⟨base, variant, h⟩
  · rintro ⟨base, variant, h⟩
    obtain ⟨f, hf, htimed⟩ := raced_iff.mp h
    exact hf.has_point.mpr ⟨base, variant, htimed⟩

variable (catalog)

/-- **Points counted by their speedups are files counted by their durations.** -/
theorem countP_speedups (sign : ℚ → Bool) (p : ℚ → ℚ → Bool)
    (hsign : ∀ base variant s, Verdict base variant s → (sign s = true ↔ p base variant = true)) :
    ((Comparison.ofGroups catalog pair (ofPair pair groups)).speedups.map (·.speedup)).countP sign =
      (filesWhere groups pair.baseline pair.variant p).card := by
  have hall : ((Comparison.ofGroups catalog pair (ofPair pair groups)).speedups.map
      (·.file)).Nodup := speedups_distinct
  set points := (Comparison.ofGroups catalog pair (ofPair pair groups)).speedups
  -- No two points share a file, so the points that are counted are as many as their files.
  have hdistinct : ((points.filter fun q => sign q.speedup).map (·.file)).Nodup :=
    hall.sublist (List.filter_sublist.map _)
  have hfiles : ((points.filter fun q => sign q.speedup).map (·.file)).toFinset =
      filesWhere groups pair.baseline pair.variant p := by
    ext file
    rw [List.mem_toFinset, List.mem_map, mem_filesWhere]
    constructor
    · rintro ⟨q, hq, rfl⟩
      obtain ⟨hmem, hq⟩ := List.mem_filter.mp hq
      obtain ⟨base, variant, h, hverdict⟩ := verdict_of_mem hmem
      exact ⟨base, variant, h, (hsign _ _ _ hverdict).mp hq⟩
    · rintro ⟨base, variant, h, hp⟩
      obtain ⟨q, hmem, rfl⟩ := List.mem_map.mp (mem_files_iff.mpr ⟨base, variant, h⟩)
      obtain ⟨base', variant', h', hverdict⟩ := verdict_of_mem hmem
      obtain ⟨rfl, rfl⟩ := h.unique h'
      exact ⟨q, List.mem_filter.mpr ⟨hmem, (hsign _ _ _ hverdict).mpr hp⟩, rfl⟩
  rw [List.countP_map, List.countP_eq_length_filter, ← hfiles, List.toFinset_card_of_nodup hdistinct,
    List.length_map]
  rfl

/-- The points with a speedup below zero are the files on which the baseline is faster. -/
theorem countP_neg :
    ((Comparison.ofGroups catalog pair (ofPair pair groups)).speedups.map (·.speedup)).countP
        (fun s => decide (s < zero)) =
      (filesWhere groups pair.baseline pair.variant fun a b => decide (a < b)).card := by
  refine countP_speedups catalog _ _ fun base variant s h => ?_
  rw [decide_eq_true_eq, decide_eq_true_eq, zero_eq, h.neg_iff]

/-- The points with a speedup above zero are the files on which the variant is faster, and the
ties. -/
theorem countP_pos :
    ((Comparison.ofGroups catalog pair (ofPair pair groups)).speedups.map (·.speedup)).countP
        (fun s => decide (zero < s)) =
      (filesWhere groups pair.baseline pair.variant fun a b => decide (b < a)).card +
        (filesWhere groups pair.baseline pair.variant fun a b => decide (a = b)).card := by
  rw [countP_speedups catalog _ fun a b => decide (b ≤ a)]
  · refine card_filesWhere (fun a b => ?_) fun a b hlt heq => ?_
    · rw [decide_eq_true_eq, decide_eq_true_eq, decide_eq_true_eq, le_iff_lt_or_eq, eq_comm]
    · exact absurd (of_decide_eq_true heq).symm (ne_of_lt (of_decide_eq_true hlt))
  · intro base variant s h
    rw [decide_eq_true_eq, decide_eq_true_eq, zero_eq, h.pos_iff]

/-! ### The whole comparison -/

/-- The speedups and the counters of a comparison follow the mean durations of its files. -/
structure Comparison.Directed (pair : ConfigPair) (groups : List (RunGroup ℚ))
    (c : Comparison ℚ) : Prop where
  /-- The files with a point are those with one group and a mean duration above zero on each side. -/
  files : ∀ file, file ∈ c.speedups.map (·.file) ↔
    ∃ a b, Raced groups file pair.first pair.second a b
  distinct : (c.speedups.map (·.file)).Nodup
  verdicts : ∀ p ∈ c.speedups, ∃ base variant,
    Raced groups p.file pair.baseline pair.variant base variant ∧ Verdict base variant p.speedup
  /-- The files on which the first configuration is faster, and the ties if it is the variant. -/
  firstBetter : c.speedupStats.firstBetter =
    (filesWhere groups pair.first pair.second fun a b => decide (a < b)).card +
      if pair.variant = pair.first then
        (filesWhere groups pair.first pair.second fun a b => decide (a = b)).card
      else 0
  /-- The files on which the second configuration is faster, and the ties if it is the variant. -/
  secondBetter : c.speedupStats.secondBetter =
    (filesWhere groups pair.first pair.second fun a b => decide (b < a)).card +
      if pair.variant = pair.second then
        (filesWhere groups pair.first pair.second fun a b => decide (a = b)).card
      else 0

/-- The counters by baseline and variant: the counter of the baseline has the files on which it is
faster, the other one the rest. -/
theorem better_ofGroups (groups : List (RunGroup ℚ)) (pair : ConfigPair) :
    (Comparison.ofGroups catalog pair (ofPair pair groups)).speedupStats.firstBetter =
        (if pair.baselineFirst then
          (filesWhere groups pair.baseline pair.variant fun a b => decide (a < b)).card
        else (filesWhere groups pair.baseline pair.variant fun a b => decide (b < a)).card +
          (filesWhere groups pair.baseline pair.variant fun a b => decide (a = b)).card) ∧
      (Comparison.ofGroups catalog pair (ofPair pair groups)).speedupStats.secondBetter =
        (if pair.baselineFirst then
          (filesWhere groups pair.baseline pair.variant fun a b => decide (b < a)).card +
            (filesWhere groups pair.baseline pair.variant fun a b => decide (a = b)).card
        else (filesWhere groups pair.baseline pair.variant fun a b => decide (a < b)).card) := by
  rw [← countP_neg catalog, ← countP_pos catalog]
  exact ⟨rfl, rfl⟩

end

/-- A tie, a file on which each side is faster once, and one with a second group on one side. -/
def racedGroups : List (RunGroup ℚ) :=
  [.timed "a" "Fast" 2 3, .timed "b" "Baseline" 5 4, .timed "a" "Baseline" 6 3,
    .timed "b" "Fast" 5 2, .timed "c" "Fast" 1 7, .timed "c" "Baseline" 1 5,
    .timed "d" "Fast" 1 1, .timed "d" "Baseline" 1 2, .timed "d" "Fast" 1 3]

end RunCompare
