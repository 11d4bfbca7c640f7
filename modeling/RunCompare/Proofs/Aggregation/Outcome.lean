/-
Whether aggregation succeeds, and what it reports if it does not.

Runs are checked group by group, so the run that is reported is not the first
incomplete one of the list: it is the first in the order of grouping, test cases
by first appearance, configurations by first appearance inside them, and only
then by place (`CheckedBefore`).  Of this run the first absent part is reported,
in the order that `Run.parts` lists them.

If no run lacks a part there is one group for each group of runs, and this is
all that the proofs about two aggregations need of the first (`mem_of_aggregate`).
-/
import RunCompare.Proofs.Aggregation

namespace RunCompare

open Stats

variable {α : Type}

/-! ### The parts of a report -/

/-- The paths of the parts of a report in the order in which they are looked for, each with
whether the run has the part. -/
def Run.parts (r : Run α) : List (String × Bool) :=
  [("diff_summary", r.report.isSome),
    ("diff_summary.leaves", r.leaves?.isSome),
    ("diff_summary.leaves.total_time", (r.leaves?.bind (·.totalTime)).isSome),
    ("diff_summary.leaves.total_comparisons", (r.leaves?.bind (·.totalComparisons)).isSome),
    ("diff_summary.leaves.exact_matches", (r.leaves?.bind (·.exactMatches)).isSome),
    ("diff_summary.leaves.similarity_time", (r.leaves?.bind (·.similarityTime)).isSome),
    ("diff_summary.leaves.similarity_checks", (r.leaves?.bind (·.similarityChecks)).isSome),
    ("diff_summary.leaves.characters_compared", (r.leaves?.bind (·.charactersCompared)).isSome),
    ("diff_summary.bottomup", r.bottomUp?.isSome),
    ("diff_summary.bottomup.total_time", (r.bottomUp?.bind (·.totalTime)).isSome),
    ("diff_summary.bottomup.similarity_time", (r.bottomUp?.bind (·.similarityTime)).isSome)]

/-- The path of the first part that a run lacks. -/
def Run.firstAbsent? (r : Run α) : Option String :=
  (r.parts.find? fun part => !part.2).map (·.1)

/-- A run lacks a part of its report. -/
def Run.Lacking (r : Run α) : Prop := ∃ path, (path, false) ∈ r.parts

/-- The part that is found missing is the first one absent. -/
theorem Run.missing?_path (r : Run α) : r.missing?.map ReportPart.path = r.firstAbsent? := by
  obtain ⟨file, config, testCase, nodeCount, loc, durationSecs, report, others⟩ := r
  -- Both sides stop at the first part that is absent: one case for each part, in their order.
  cases report with
  | none => rfl
  | some report =>
  obtain ⟨leaves, bottomUp, others'⟩ := report
  cases leaves with
  | none => rfl
  | some leaves =>
  obtain ⟨totalTime, totalComparisons, exactMatches, similarityTime, similarityChecks,
    charactersCompared, others''⟩ := leaves
  cases totalTime with
  | none => rfl
  | some _ =>
  cases totalComparisons with
  | none => rfl
  | some _ =>
  cases exactMatches with
  | none => rfl
  | some _ =>
  cases similarityTime with
  | none => rfl
  | some _ =>
  cases similarityChecks with
  | none => rfl
  | some _ =>
  cases charactersCompared with
  | none => rfl
  | some _ =>
  cases bottomUp with
  | none => rfl
  | some bottomUp =>
  obtain ⟨totalTime, similarityTime, others'''⟩ := bottomUp
  cases totalTime with
  | none => rfl
  | some _ =>
  cases similarityTime with
  | none => rfl
  | some _ => rfl

theorem Run.lacking_iff (r : Run α) : r.Lacking ↔ ∃ missing, r.missing? = some missing := by
  have hfound : r.Lacking ↔ r.firstAbsent?.isSome = true := by
    rw [firstAbsent?, Option.isSome_map, List.find?_isSome]
    constructor
    · rintro ⟨path, hpath⟩
      exact ⟨(path, false), hpath, rfl⟩
    · rintro ⟨⟨path, present⟩, hpath, habsent⟩
      cases present with
      | true => cases habsent
      | false => exact ⟨path, hpath⟩
  rw [hfound, ← r.missing?_path, Option.isSome_map, Option.isSome_iff_exists]

/-- All parts of a report. -/
def ReportPart.all : List ReportPart :=
  [.report, .leaves, .leavesTotalTime, .totalComparisons, .exactMatches, .leavesSimilarityTime,
    .similarityChecks, .charactersCompared, .bottomUp, .bottomUpTotalTime, .bottomUpSimilarityTime]

theorem ReportPart.mem_all (part : ReportPart) : part ∈ all := by
  cases part <;> decide

theorem ReportPart.path_injective : Function.Injective ReportPart.path := by
  have hdistinct : (all.map path).Nodup := by decide
  intro part part' h
  exact List.inj_on_of_nodup_map hdistinct part.mem_all part'.mem_all h

theorem Run.missing?_eq_some_iff {r : Run α} {missing : ReportPart} :
    r.missing? = some missing ↔ r.firstAbsent? = some missing.path := by
  rw [← r.missing?_path, ← Option.map_some]
  exact (Option.map_injective ReportPart.path_injective).eq_iff.symm

theorem Run.complete_iff (r : Run α) : r.Complete ↔ r.missing? = none := by
  unfold Complete missing?
  cases r.breakdown with
  | ok b => exact ⟨fun _ => rfl, fun _ => ⟨b, rfl⟩⟩
  | error part => exact ⟨fun ⟨_, hb⟩ => (nomatch hb), fun h => (nomatch h)⟩

theorem Run.complete_iff_not_lacking (r : Run α) : r.Complete ↔ ¬ r.Lacking := by
  rw [r.complete_iff, r.lacking_iff, not_exists, Option.eq_none_iff_forall_ne_some]

theorem Run.validate_eq_error_iff {r : Run α} {e : AnalysisError} :
    r.validate = .error e ↔ ∃ missing, r.missing? = some missing ∧ e = r.malformed missing := by
  unfold validate
  cases r.missing? with
  | none => exact ⟨fun h => (nomatch h), fun ⟨_, h, _⟩ => (nomatch h)⟩
  | some part =>
      constructor
      · intro h
        cases h
        exact ⟨part, rfl, rfl⟩
      · rintro ⟨missing, h, rfl⟩
        cases h
        rfl

theorem Run.validate_eq_ok_iff {r : Run α} {u : Unit} : r.validate = .ok u ↔ r.Complete := by
  rw [r.complete_iff]
  unfold validate
  cases r.missing? with
  | none => exact ⟨fun _ => rfl, fun _ => rfl⟩
  | some part => exact ⟨fun h => (nomatch h), fun h => (nomatch h)⟩

theorem complete_of_validated {runs : List (Run α)} {us : List Unit}
    (h : runs.mapM Run.validate = .ok us) : ∀ r ∈ runs, r.Complete := by
  intro r hr
  obtain ⟨u, -, hu⟩ := exists_of_forall₂_of_mem (mapM_eq_ok_iff.mp h).flip hr
  exact Run.validate_eq_ok_iff.mp hu

/-! ### The order of checking -/

/-- A run at one place is checked before a run at another: its group comes earlier, or both are
of one group and its place comes earlier. -/
def CheckedBefore (runs : List (Run α)) (i : Nat) (r : Run α) (j : Nat) (s : Run α) : Prop :=
  Precedes runs r.key s.key ∨ r.key = s.key ∧ i < j

/-- A run lacks a part, and is checked before every other run that does. -/
structure FirstLacking (runs : List (Run α)) (i : Nat) (r : Run α) : Prop where
  place : runs[i]? = some r
  lacking : r.Lacking
  first : ∀ j s, runs[j]? = some s → s.Lacking → j = i ∨ CheckedBefore runs i r j s

section

variable {runs : List (Run α)}

theorem Precedes.asymm {a b : UInt64 × String} (h : Precedes runs a b) : ¬ Precedes runs b a := by
  rintro (hlt' | ⟨heq', hlt'⟩)
  · rcases h with hlt | ⟨heq, -⟩
    · exact Nat.lt_asymm hlt hlt'
    · rw [heq] at hlt'
      exact Nat.lt_irrefl _ hlt'
  · rcases h with hlt | ⟨heq, hlt⟩
    · rw [heq'] at hlt
      exact Nat.lt_irrefl _ hlt
    · rw [heq] at hlt
      exact Nat.lt_asymm hlt hlt'

theorem CheckedBefore.asymm {i j : Nat} {r s : Run α} (h : CheckedBefore runs i r j s) :
    ¬ CheckedBefore runs j s i r := by
  rintro (hprec' | ⟨hkey', hlt'⟩)
  · rcases h with hprec | ⟨hkey, -⟩
    · exact hprec.asymm hprec'
    · rw [hkey] at hprec'
      exact hprec'.asymm hprec'
  · rcases h with hprec | ⟨-, hlt⟩
    · rw [hkey'] at hprec
      exact hprec.asymm hprec
    · exact Nat.lt_asymm hlt hlt'

/-- Only one run can be the first. -/
theorem FirstLacking.unique {i j : Nat} {r s : Run α} (h : FirstLacking runs i r)
    (h' : FirstLacking runs j s) : r = s := by
  have hplace : i = j := by
    rcases h.first j s h'.place h'.lacking with heq | hafter
    · exact heq.symm
    · rcases h'.first i r h.place h.lacking with heq | hafter'
      · exact heq
      · exact absurd hafter' hafter.asymm
  have hr := h.place
  rw [hplace, h'.place] at hr
  exact (Option.some.inj hr).symm

/-- A run is in the group of runs with its key. -/
theorem exists_group_of_mem {r : Run α} (hr : r ∈ runs) :
    ∃ g ∈ groupRuns runs, g.runKey = r.key ∧ r ∈ g.members := by
  obtain ⟨g, hg, hkey⟩ := List.mem_map.mp (groupRuns_covers hr)
  refine ⟨g, hg, hkey, ?_⟩
  rw [groupRuns_members hg, hkey]
  exact List.mem_filter.mpr ⟨hr, by simp⟩

/-- A run of another group than a given one is in an earlier group, or its key comes later. -/
theorem mem_earlier_or_precedes {earlier later : List (Group String (Run α))}
    {g : Group String (Run α)} (hgroups : groupRuns runs = earlier ++ g :: later) {s : Run α}
    (hs : s ∈ runs) (hkey : s.key ≠ g.runKey) :
    (∃ g' ∈ earlier, s ∈ g'.members) ∨ Precedes runs g.runKey s.key := by
  obtain ⟨g', hg', hkey', hmember⟩ := exists_group_of_mem hs
  rw [hgroups] at hg'
  rcases List.mem_append.mp hg' with hin | hin
  · exact Or.inl ⟨g', hin, hmember⟩
  · rcases List.mem_cons.mp hin with rfl | hin
    · exact absurd hkey'.symm hkey
    · have hordered := groupRuns_ordered runs
      rw [hgroups, List.pairwise_append, List.pairwise_cons] at hordered
      rw [← hkey']
      exact Or.inr (hordered.2.1.1 g' hin)

/-- A run that lacks a part is the first if no earlier group and no earlier run of its group has
such a run. -/
theorem exists_firstLacking {earlier later : List (Group String (Run α))}
    {g : Group String (Run α)} (hgroups : groupRuns runs = earlier ++ g :: later)
    (hearlier : ∀ g' ∈ earlier, ∀ s ∈ g'.members, s.Complete) {before after : List (Run α)}
    {r : Run α} (hmembers : g.members = before ++ r :: after)
    (hbefore : ∀ s ∈ before, s.Complete) (hr : r.Lacking) : ∃ i, FirstLacking runs i r := by
  have hmem : g ∈ groupRuns runs := by
    rw [hgroups]
    exact List.mem_append_right _ List.mem_cons_self
  rw [groupRuns_members hmem, itemsWith] at hmembers
  obtain ⟨i, hi, hbelow⟩ := exists_place_of_filter_eq hmembers
  have hkey : r.key = g.runKey := by
    have hin : r ∈ runs.filter fun s => decide (s.key = g.runKey) := by
      rw [hmembers]
      exact List.mem_append_right _ List.mem_cons_self
    simpa using (List.mem_filter.mp hin).2
  refine ⟨i, hi, hr, fun j s hs hlacking => ?_⟩
  have hincomplete : ¬ s.Complete := fun hc => s.complete_iff_not_lacking.mp hc hlacking
  by_cases hskey : s.key = g.runKey
  · -- Earlier runs of the same group are complete.
    rcases Nat.lt_trichotomy j i with hlt | heq | hgt
    · exact absurd (hbefore s (hbelow j s hs (by simp [hskey]) hlt)) hincomplete
    · exact Or.inl heq
    · exact Or.inr (Or.inr ⟨hkey.trans hskey.symm, hgt⟩)
  · -- So are all runs of earlier groups.
    rcases mem_earlier_or_precedes hgroups (List.mem_of_getElem? hs) hskey with
      ⟨g', hg', hmember⟩ | hprecedes
    · exact absurd (hearlier g' hg' s hmember) hincomplete
    · rw [← hkey] at hprecedes
      exact Or.inr (Or.inl hprecedes)

end

variable [Scalar α]

/-! ### One group -/

section

variable {catalog : Catalog (Run α) α} {g : Group String (Run α)}

/-- Checking its runs is all that can refuse a group. -/
theorem aggregateGroup_eq_error {e : AnalysisError} :
    aggregateGroup catalog g = .error e ↔ g.members.mapM Run.validate = .error e := by
  have hpass := forM_eq_map_mapM Run.validate g.members
  cases hruns : g.members.mapM Run.validate with
  | error e' =>
      rw [hruns] at hpass
      unfold aggregateGroup
      rw [hpass]
      exact ⟨fun h => by cases h; rfl, fun h => by cases h; rfl⟩
  | ok us =>
      obtain ⟨out, hout, -⟩ := aggregateGroup_of_complete catalog g (complete_of_validated hruns)
      rw [hout]
      exact ⟨fun h => (nomatch h), fun h => (nomatch h)⟩

theorem complete_of_aggregateGroup {out : RunGroup α} (h : aggregateGroup catalog g = .ok out) :
    ∀ r ∈ g.members, r.Complete := by
  cases hruns : g.members.mapM Run.validate with
  | error e =>
      rw [aggregateGroup_eq_error.mpr hruns] at h
      cases h
  | ok us => exact complete_of_validated hruns

/-- What a group that comes out counts and describes. -/
theorem fields_of_aggregateGroup {out : RunGroup α} (h : aggregateGroup catalog g = .ok out) :
    out.key = g.first.key ∧ out.config = g.first.config ∧ out.count = g.members.length ∧
      out.stats = describeRuns catalog g.members := by
  have hcomplete := complete_of_aggregateGroup h
  obtain ⟨b, -, hrequire⟩ := requireBreakdown_of_complete (hcomplete g.first List.mem_cons_self)
  unfold aggregateGroup at h
  rw [validateAll_of_complete hcomplete] at h
  simp only [hrequire] at h
  cases h
  exact ⟨rfl, rfl, rfl, rfl⟩

/-- A group is refused at the first of its runs that is not complete. -/
theorem aggregateGroup_eq_error_iff {e : AnalysisError} : aggregateGroup catalog g = .error e ↔
    ∃ before r after, g.members = before ++ r :: after ∧ (∀ s ∈ before, s.Complete) ∧
      r.validate = .error e := by
  rw [aggregateGroup_eq_error, mapM_eq_error_iff]
  simp only [Run.validate_eq_ok_iff, exists_const]

end

/-! ### All groups -/

section

variable {catalog : Catalog (Run α) α} {runs : List (Run α)}

theorem aggregate_eq_error {e : AnalysisError} : aggregate catalog runs = .error e ↔
    (groupRuns runs).mapM (aggregateGroup catalog) = .error e := by
  unfold aggregate
  cases (groupRuns runs).mapM (aggregateGroup catalog) with
  | error e' => exact ⟨fun h => by cases h; rfl, fun h => by cases h; rfl⟩
  | ok outs => exact ⟨fun h => (nomatch h), fun h => (nomatch h)⟩

/-- **An error is about the first run that lacks a part, in the order of grouping.** -/
theorem exists_firstLacking_of_error {e : AnalysisError}
    (h : aggregate catalog runs = .error e) :
    ∃ i r, FirstLacking runs i r ∧ r.validate = .error e := by
  obtain ⟨earlier, g, later, hgroups, hearlier, hg⟩ :=
    mapM_eq_error_iff.mp (aggregate_eq_error.mp h)
  obtain ⟨before, r, after, hmembers, hbefore, hr⟩ := aggregateGroup_eq_error_iff.mp hg
  have hcomplete : ∀ g' ∈ earlier, ∀ s ∈ g'.members, s.Complete := by
    intro g' hg'
    obtain ⟨out, hout⟩ := hearlier g' hg'
    exact complete_of_aggregateGroup hout
  obtain ⟨missing, hmissing, -⟩ := Run.validate_eq_error_iff.mp hr
  have hlacking : r.Lacking := r.lacking_iff.mpr ⟨missing, hmissing⟩
  obtain ⟨i, hfirst⟩ := exists_firstLacking hgroups hcomplete hmembers hbefore hlacking
  exact ⟨i, r, hfirst, hr⟩

/-! ### Success -/

/-- Aggregation succeeds with one group for each group of runs, sorted. -/
theorem aggregate_eq_ok {groups : List (RunGroup α)} : aggregate catalog runs = .ok groups ↔
    ∃ outs, List.Forall₂ (fun g out => aggregateGroup catalog g = .ok out) (groupRuns runs) outs ∧
      groups = byFallingNodeCount outs := by
  simp only [← mapM_eq_ok_iff]
  unfold aggregate
  cases (groupRuns runs).mapM (aggregateGroup catalog) with
  | error e' => exact ⟨fun h => (nomatch h), fun ⟨_, h, _⟩ => (nomatch h)⟩
  | ok outs =>
      constructor
      · intro h
        cases h
        exact ⟨outs, rfl, rfl⟩
      · rintro ⟨outs', h, rfl⟩
        cases h
        rfl

/-- The groups that come out are those of the groups of runs. -/
theorem mem_of_aggregate {groups : List (RunGroup α)} (h : aggregate catalog runs = .ok groups)
    {out : RunGroup α} :
    out ∈ groups ↔ ∃ g ∈ groupRuns runs, aggregateGroup catalog g = .ok out := by
  obtain ⟨outs, hrel, rfl⟩ := aggregate_eq_ok.mp h
  have hperm : (byFallingNodeCount outs).Perm outs := List.mergeSort_perm _ _
  rw [hperm.mem_iff]
  constructor
  · intro hout
    exact exists_of_forall₂_of_mem hrel hout
  · rintro ⟨g, hg, hout⟩
    obtain ⟨out', hmem, hout'⟩ := exists_of_forall₂_of_mem hrel.flip hg
    rw [hout] at hout'
    cases hout'
    exact hmem

/-- Each group that comes out counts and describes the runs with its key. -/
theorem describes_of_aggregate {groups : List (RunGroup α)}
    (h : aggregate catalog runs = .ok groups) {out : RunGroup α} (hout : out ∈ groups) :
    out.count = (itemsWith Run.key runs out.key).length ∧
      out.stats = describeRuns catalog (itemsWith Run.key runs out.key) := by
  obtain ⟨g, hg, hok⟩ := (mem_of_aggregate h).mp hout
  obtain ⟨hkey, -, hcount, hstats⟩ := fields_of_aggregateGroup hok
  rw [hkey, (groupRuns_first hg).2, ← groupRuns_members hg]
  exact ⟨hcount, hstats⟩

theorem mem_keys_of_aggregate {groups : List (RunGroup α)}
    (h : aggregate catalog runs = .ok groups) {k : UInt64 × String} :
    k ∈ groups.map RunGroup.key ↔ k ∈ runs.map Run.key := by
  constructor
  · intro hk
    obtain ⟨out, hout, rfl⟩ := List.mem_map.mp hk
    obtain ⟨g, hg, hok⟩ := (mem_of_aggregate h).mp hout
    rw [(fields_of_aggregateGroup hok).1]
    exact List.mem_map.mpr ⟨g.first, (groupRuns_first hg).1, rfl⟩
  · intro hk
    obtain ⟨outs, hrel, -⟩ := aggregate_eq_ok.mp h
    obtain ⟨r, hr, rfl⟩ := List.mem_map.mp hk
    obtain ⟨g, hg, hkey, -⟩ := exists_group_of_mem hr
    obtain ⟨out, -, hok⟩ := exists_of_forall₂_of_mem hrel.flip hg
    refine List.mem_map.mpr ⟨out, (mem_of_aggregate h).mpr ⟨g, hg, hok⟩, ?_⟩
    rw [(fields_of_aggregateGroup hok).1, (groupRuns_first hg).2, hkey]

theorem distinct_of_aggregate {groups : List (RunGroup α)}
    (h : aggregate catalog runs = .ok groups) : (groups.map RunGroup.key).Nodup := by
  obtain ⟨outs, hrel, rfl⟩ := aggregate_eq_ok.mp h
  have hperm : (byFallingNodeCount outs).Perm outs := List.mergeSort_perm _ _
  have hkeys : (groupRuns runs).map Group.runKey = outs.map RunGroup.key := by
    rw [← map_eq_of_forall₂ hrel fun g out hok => (fields_of_aggregateGroup hok).1.symm]
    exact List.map_congr_left fun g hg => (groupRuns_first hg).2.symm
  rw [(hperm.map RunGroup.key).nodup_iff, ← hkeys]
  exact groupRuns_distinct runs

/-- Aggregation succeeds exactly on complete runs. -/
theorem exists_aggregate_iff : (∃ groups, aggregate catalog runs = .ok groups) ↔
    ∀ r ∈ runs, r.Complete := by
  constructor
  · rintro ⟨groups, h⟩ r hr
    obtain ⟨outs, hrel, -⟩ := aggregate_eq_ok.mp h
    obtain ⟨g, hg, -, hmember⟩ := exists_group_of_mem hr
    obtain ⟨out, -, hout⟩ := exists_of_forall₂_of_mem hrel.flip hg
    exact complete_of_aggregateGroup hout r hmember
  · intro complete
    cases h : aggregate catalog runs with
    | ok groups => exact ⟨groups, rfl⟩
    | error e =>
        obtain ⟨i, r, hfirst, -⟩ := exists_firstLacking_of_error h
        have hr := complete r (List.mem_of_getElem? hfirst.place)
        exact absurd hfirst.lacking (r.complete_iff_not_lacking.mp hr)

/--
**Aggregation is refused exactly if a run lacks a part, and says which.**

The first run that lacks a part is that in the order of grouping, and the part is
the first that it lacks.
-/
theorem aggregate_refused_iff (catalog : Catalog (Run α) α) (runs : List (Run α)) :
    ((∃ e, aggregate catalog runs = .error e) ↔ ∃ r ∈ runs, r.Lacking) ∧
    ∀ e, aggregate catalog runs = .error e ↔
      ∃ i r missing, FirstLacking runs i r ∧ r.firstAbsent? = some missing.path ∧
        e = .malformedGroup r.testCase r.config r.file missing := by
  have refused : (∃ r ∈ runs, r.Lacking) → ∃ e, aggregate catalog runs = .error e := by
    rintro ⟨r, hr, hlacking⟩
    cases h : aggregate catalog runs with
    | error e => exact ⟨e, rfl⟩
    | ok groups =>
        have hcomplete := exists_aggregate_iff.mp ⟨groups, h⟩ r hr
        exact absurd hlacking (r.complete_iff_not_lacking.mp hcomplete)
  refine ⟨⟨?_, refused⟩, fun e => ⟨?_, ?_⟩⟩
  · rintro ⟨e, h⟩
    obtain ⟨i, r, hfirst, -⟩ := exists_firstLacking_of_error h
    exact ⟨r, List.mem_of_getElem? hfirst.place, hfirst.lacking⟩
  · intro h
    obtain ⟨i, r, hfirst, hr⟩ := exists_firstLacking_of_error h
    obtain ⟨missing, hmissing, rfl⟩ := Run.validate_eq_error_iff.mp hr
    exact ⟨i, r, missing, hfirst, Run.missing?_eq_some_iff.mp hmissing, rfl⟩
  · rintro ⟨i, r, missing, hfirst, hmissing, rfl⟩
    obtain ⟨e, h⟩ := refused ⟨r, List.mem_of_getElem? hfirst.place, hfirst.lacking⟩
    obtain ⟨j, s, hfirst', hs⟩ := exists_firstLacking_of_error h
    rw [← hfirst.unique hfirst', Run.validate_eq_error_iff] at hs
    obtain ⟨missing', hmissing', rfl⟩ := hs
    rw [Run.missing?_eq_some_iff.mpr hmissing] at hmissing'
    cases hmissing'
    exact h

end

/-- Of two runs that lack a part, the one of the earlier test case is reported and not the one
that comes first. -/
example : aggregate Catalog.empty
    [Run.uniform 7 "Fast" 40 (.ofNat 3) (.ofNat 1),
      { Run.uniform 2 "Fast" 40 (.ofNat 3) (.ofNat 1) with report := none },
      { Run.uniform 7 "Fast" 40 (.ofNat 3) (.ofNat 1) with
        report := some ⟨none, none, KeyMap.empty⟩ }] =
    (.error (.malformedGroup 7 "Fast" "Fast" .leaves) :
      Except AnalysisError (List (RunGroup Binary64))) := by
  rfl

end RunCompare
