/-
The flat record of a group of runs.

Three kinds of fields are written side by side into one object: the fixed ones,
the statistics, whose names come from the catalog, and unknown fields of the
first run, whose names come from whoever wrote the runs.  No two of them have one
key (`keys_flatFields_nodup`), so none can take the place of another:

* no fixed key ends like the key of a statistic (`fixedKeys_not_statistic`);
* a run that was read has no unknown field under a key of its own, and unknown
  fields named like a statistic or a count are left out (`get?_others_of_isComputed`).

Hence each field is found in the object with its value (`toJson_of_aggregate`).
-/
import RunCompare.Proofs.Aggregation.Outcome
import RunCompare.Proofs.Run.Codec

namespace RunCompare

open Json Stats

variable {α β : Type}

/-! ### Keys -/

/-- The entries of a map made of entries with different keys are these entries. -/
theorem KeyMap.entries_ofList_perm {entries : List (String × β)}
    (distinct : (entries.map (·.1)).Nodup) : (KeyMap.ofList entries).entries.Perm entries := by
  have hnodup : (KeyMap.ofList entries).entries.Nodup := (nodup_keys _).of_map
  refine (List.perm_ext_iff_of_nodup hnodup distinct.of_map).mpr fun e => ?_
  constructor
  · intro he
    exact mem_of_get?_ofList (mem_entries.mp he)
  · intro he
    exact mem_entries.mpr (get?_ofList_of_mem distinct he)

/-- **No fixed field is named like a statistic.** -/
theorem fixedKeys_not_statistic {key : String} (hkey : key ∈ RunGroup.fixedKeys) (metric : String)
    (s : Statistic) : key ≠ statisticKey metric s.suffix := by
  have table : ∀ key ∈ RunGroup.fixedKeys, ∀ s ∈ Statistic.all, ¬ s.ending <:+ key.toList := by
    decide
  intro heq
  refine table key hkey s s.mem_all ?_
  rw [heq, toList_statisticKey]
  exact List.suffix_append _ _

theorem mem_fixedKeys {key : String} :
    key ∈ RunGroup.fixedKeys ↔ key ∈ Run.keys ∨ key ∈ computedKeys := by
  simp [RunGroup.fixedKeys, Run.keys, computedKeys, or_assoc]

variable [Scalar α]

/-- A key belongs to a field that aggregation computes. -/
def IsComputed (catalog : Catalog (Run α) α) (key : String) : Prop :=
  key ∈ RunGroup.fixedKeys ∨
    ∃ m ∈ catalog.metrics, ∃ s : Statistic, key = statisticKey m.name s.suffix

/-- No statistic that is put in takes the place of another. -/
theorem entries_describeRuns_perm (catalog : Catalog (Run α) α) (runs : List (Run α)) :
    (describeRuns catalog runs).entries.Perm (catalog.metrics.flatMap fun m =>
      statisticFields m.name (Description.ofSamples (m.values runs))) := by
  rw [describeRuns_eq]
  exact KeyMap.entries_ofList_perm (keys_statisticFields_nodup _ catalog.distinct)

/-- There are five statistics for each metric. -/
theorem size_describeRuns (catalog : Catalog (Run α) α) (runs : List (Run α)) :
    (describeRuns catalog runs).size = 5 * catalog.size := by
  have hfields : ∀ metrics : List (Metric (Run α) α), (metrics.flatMap fun m =>
      statisticFields m.name (Description.ofSamples (m.values runs))).length =
        5 * metrics.length := by
    intro metrics
    induction metrics with
    | nil => rfl
    | cons m rest ih =>
        rw [List.flatMap_cons, List.length_append, ih, List.length_cons]
        show 5 + 5 * rest.length = _
        omega
  rw [KeyMap.size, (entries_describeRuns_perm catalog runs).length_eq]
  exact hfields catalog.metrics

/-! ### One group -/

namespace RunGroup

@[simp] theorem keys_fixedFields (g : RunGroup α) : g.fixedFields.map (·.1) = fixedKeys := rfl

theorem keys_flatFields (g : RunGroup α) :
    g.flatFields.map (·.1) = fixedKeys ++ g.stats.keys ++ g.others.keys := by
  rw [flatFields, List.map_append, List.map_append, keys_fixedFields]
  exact congrArg (fun keys => fixedKeys ++ keys ++ g.others.keys) (KeyMap.keys_map _ _)

section

variable {catalog : Catalog (Run α) α} {runs : List (Run α)} {g : RunGroup α} {r : Run α}
  {v : Json α} {key : String}

/-- A group of runs that were read carries no unknown field under a computed key. -/
theorem get?_others_of_isComputed (hsum : g.Summarizes catalog runs) (hr : g.Represents r)
    (hread : Run.ofJson v = some r) (hkey : IsComputed catalog key) : g.others.get? key = none := by
  rw [hr.others key]
  by_cases hleft : g.stats.contains key = true ∨ key ∈ computedKeys
  · rw [if_pos hleft]
  · rw [if_neg hleft]
    rcases hkey with hfixed | hstatistic
    · have hknown : key ∈ Run.keys :=
        (mem_fixedKeys.mp hfixed).resolve_right fun h => hleft (Or.inr h)
      exact ((Run.lawful.keeps hread).others key).trans (if_pos hknown)
    · exact absurd (Or.inl ((hsum.keys key).mpr hstatistic)) hleft

/-- Every other field it carries as it was written. -/
theorem get?_others_of_not_isComputed (hsum : g.Summarizes catalog runs) (hr : g.Represents r)
    (hread : Run.ofJson v = some r) (hkey : ¬ IsComputed catalog key) :
    g.others.get? key = v.canonical.field? key := by
  have hstats : ¬ g.stats.contains key = true := fun h => hkey (Or.inr ((hsum.keys key).mp h))
  have hcomputed : key ∉ computedKeys := fun h => hkey (Or.inl (mem_fixedKeys.mpr (Or.inr h)))
  have hknown : key ∉ Run.keys := fun h => hkey (Or.inl (mem_fixedKeys.mpr (Or.inl h)))
  rw [hr.others key, if_neg (not_or.mpr ⟨hstats, hcomputed⟩)]
  exact ((Run.lawful.keeps hread).others key).trans (if_neg hknown)

/-- **No key of the flat record is written twice.** -/
theorem keys_flatFields_nodup (hsum : g.Summarizes catalog runs) (hr : g.Represents r)
    (hread : Run.ofJson v = some r) : (g.flatFields.map (·.1)).Nodup := by
  have hothers : ∀ key ∈ g.others.keys, ¬ IsComputed catalog key := by
    intro key hkey hcomputed
    obtain ⟨w, hw⟩ := KeyMap.mem_keys_iff.mp hkey
    rw [get?_others_of_isComputed hsum hr hread hcomputed] at hw
    cases hw
  have hstatistic : ∀ key ∈ g.stats.keys, ∃ m ∈ catalog.metrics, ∃ s : Statistic,
      key = statisticKey m.name s.suffix :=
    fun key hkey => (hsum.keys key).mp (KeyMap.mem_keys.mp hkey)
  rw [keys_flatFields, List.nodup_append, List.nodup_append]
  refine ⟨⟨by decide, KeyMap.nodup_keys _, ?_⟩, KeyMap.nodup_keys _, ?_⟩
  · intro key hfixed key' hkey'
    obtain ⟨m, -, s, rfl⟩ := hstatistic key' hkey'
    exact fixedKeys_not_statistic hfixed m.name s
  · intro key hkey key' hkey' heq
    subst heq
    refine hothers key hkey' ?_
    rcases List.mem_append.mp hkey with hfixed | hstats
    · exact Or.inl hfixed
    · exact Or.inr (hstatistic key hstats)

/-- A field of the flat record is found in the object. -/
theorem field?_toJson_of_mem (distinct : (g.flatFields.map (·.1)).Nodup) {field : String × Json α}
    (hfield : field ∈ g.flatFields) : g.toJson.field? field.1 = some field.2 :=
  KeyMap.get?_ofList_of_mem distinct hfield

/-- Under a key that is neither fixed nor that of a statistic stands an unknown field. -/
theorem field?_toJson_of_not_isComputed (hsum : g.Summarizes catalog runs)
    (distinct : (g.flatFields.map (·.1)).Nodup) (hkey : ¬ IsComputed catalog key) :
    g.toJson.field? key = g.others.get? key := by
  have hfixed : g.fixedFields.lookup key = none := by
    rw [← Option.not_isSome_iff_eq_none, KeyMap.isSome_lookup, keys_fixedFields]
    exact fun h => hkey (Or.inl h)
  have hstats : g.stats.get? key = none := by
    rw [← Option.not_isSome_iff_eq_none]
    exact fun h => hkey (Or.inr ((hsum.keys key).mp h))
  show (KeyMap.ofList g.flatFields).get? key = _
  rw [KeyMap.get?_ofList_of_nodup distinct, flatFields, List.lookup_append, List.lookup_append,
    hfixed, Option.none_or]
  show ((g.stats.map (ofOption ofScalar)).get? key).or (g.others.get? key) = _
  rw [KeyMap.get?_map, hstats, Option.map_none, Option.none_or]

end

/-- The flat record of a group: what its object has under each key. -/
structure Flat (catalog : Catalog (Run α) α) (runs : List (Run α)) (g : RunGroup α) : Prop where
  /-- The group carries the fields of the first run, the number of the runs and their statistics. -/
  summarizes : g.Summarizes catalog runs
  /-- The fields are the fixed ones, the statistics and the unknown ones. -/
  keys : g.flatFields.map (·.1) = fixedKeys ++ g.stats.keys ++ g.others.keys
  /-- No two of them have one key. -/
  distinct : (g.flatFields.map (·.1)).Nodup
  /-- There are five statistics for each metric. -/
  size : g.stats.size = 5 * catalog.size
  file : g.toJson.field? "file_name" = some (.str g.file)
  config : g.toJson.field? "config_name" = some (.str g.config)
  testCase : g.toJson.field? "test_case_index" = some (.int g.testCase.toNat)
  nodeCount : g.toJson.field? "node_count" = some (.int g.nodeCount.toNat)
  loc : g.toJson.field? "loc" = some (.int g.loc.toNat)
  durationSecs : g.toJson.field? "duration_secs" = some (.float g.durationSecs)
  breakdown : g.toJson.field? "diff_summary" = some g.breakdown.toJson
  /-- What is written of the breakdown is read as a report in which nothing is missing. -/
  report : PhaseReport.ofJson g.breakdown.toJson = some g.breakdown.report
  similarityChecks : g.toJson.field? "no_similarity_checks" = some (.int g.similarityChecks.toNat)
  count : g.toJson.field? "count" = some (.int g.count)
  /-- The object has the five statistics of every metric, null if there are no values. -/
  statistics : ∀ m ∈ catalog.metrics, HoldsStatistics (fun key => g.toJson.field? key)
    (ofOption ofScalar) m.name (Description.ofSamples (runs.filterMap m.value?))
  /-- Under every other key the object has what the first run was read with. -/
  others : ∀ r v, runs.head? = some r → Run.ofJson v = some r → ∀ key, ¬ IsComputed catalog key →
    g.toJson.field? key = v.canonical.field? key

theorem flat_of_summarizes {catalog : Catalog (Run α) α} {runs : List (Run α)} {g : RunGroup α}
    (hsum : g.Summarizes catalog runs) (hstats : g.stats = describeRuns catalog runs)
    (read : ∀ r ∈ runs, ∃ v, Run.ofJson v = some r) : g.Flat catalog runs := by
  obtain ⟨r, hhead, hr⟩ := hsum.first
  obtain ⟨v, hread⟩ := read r (List.mem_of_head? hhead)
  have distinct := keys_flatFields_nodup hsum hr hread
  have hfixed : ∀ field ∈ g.fixedFields, g.toJson.field? field.1 = some field.2 :=
    fun field hfield =>
      field?_toJson_of_mem distinct (List.mem_append_left _ (List.mem_append_left _ hfield))
  simp only [fixedFields, List.forall_mem_cons] at hfixed
  obtain ⟨hfile, hconfig, htestCase, hnodeCount, hloc, hduration, hbreakdown, hchecks, hcount, -⟩ :=
    hfixed
  have hfinite : ofScalar g.durationSecs = .float g.durationSecs := by
    rw [hr.durationSecs]
    exact if_pos (Run.isFinite_durationSecs hread)
  obtain ⟨w, -, hkept⟩ := (Run.keepsAll_ofJson hread).report _ hr.report
  refine ⟨hsum, g.keys_flatFields, distinct, ?_, hfile, hconfig, htestCase, hnodeCount, hloc,
    hfinite ▸ hduration, hbreakdown, hkept.report.again, hchecks, hcount, fun m hm => ?_, ?_⟩
  · rw [hstats]
    exact size_describeRuns catalog runs
  · refine holdsStatistics_iff.mpr fun field hfield => ?_
    have hentry := KeyMap.get?_map (ofOption ofScalar) g.stats field.1
    rw [holdsStatistics_iff.mp (hsum.stats m hm) field hfield] at hentry
    exact field?_toJson_of_mem distinct
      (List.mem_append_left _ (List.mem_append_right _ (KeyMap.mem_entries.mpr hentry)))
  · intro r' v' hhead' hread' key hkey
    rw [hhead] at hhead'
    cases hhead'
    rw [field?_toJson_of_not_isComputed hsum distinct hkey]
    exact get?_others_of_not_isComputed hsum hr hread' hkey

end RunGroup

/-! ### All groups -/

/--
**The flat record of a group of runs that were read has each of its fields under a key of its own.**
-/
theorem toJson_of_aggregate (catalog : Catalog (Run α) α) {runs : List (Run α)}
    (read : ∀ r ∈ runs, ∃ v, Run.ofJson v = some r) {groups : List (RunGroup α)}
    (h : aggregate catalog runs = .ok groups) :
    ∀ g ∈ groups, g.Flat catalog (itemsWith Run.key runs g.key) := by
  intro g hg
  obtain ⟨group, hgroup, hok⟩ := (mem_of_aggregate h).mp hg
  obtain ⟨out, hout, hsum, hkey⟩ :=
    aggregateGroup_of_complete catalog group (complete_of_aggregateGroup hok)
  rw [hok] at hout
  cases hout
  have hmembers : group.members = itemsWith Run.key runs g.key := by
    rw [hkey, (groupRuns_first hgroup).2]
    exact groupRuns_members hgroup
  rw [← hmembers]
  refine RunGroup.flat_of_summarizes hsum (fields_of_aggregateGroup hok).2.2.2 fun r hr => ?_
  rw [hmembers] at hr
  exact read r (List.mem_filter.mp hr).1

/-- A complete run with unknown fields named like computed ones. -/
def boastfulRun (repetition : Int) : Json Binary64 :=
  .obj
    [("file_name", .str "a"), ("config_name", .str "Fast"), ("test_case_index", .int 3),
      ("count", .int 99), ("duration_mean", .int 1), ("no_similarity_checks", .int (-1)),
      ("repetition", .int repetition), ("node_count", .int 10), ("loc", .int 20),
      ("duration_secs", .int 2),
      ("diff_summary", .obj
        [("leaves", .obj
            [("total_time", .int 1), ("total_comparisons", .int 2), ("exact_matches", .int 3),
              ("similarity_time", .int 4), ("similarity_checks", .int 5),
              ("characters_compared", .int 6)]),
          ("bottomup", .obj [("total_time", .int 7), ("similarity_time", .int 8)])])]

theorem toJson_boastfulRuns : ∃ r r' groups, Run.ofJson (boastfulRun 1) = some r ∧
    Run.ofJson (boastfulRun 2) = some r' ∧ (∀ s ∈ [r, r'], ∃ v, Run.ofJson v = some s) ∧
      aggregate durationCatalog [r, r'] = .ok groups ∧
        ∀ g ∈ groups, g.Flat durationCatalog (itemsWith Run.key [r, r'] g.key) := by
  have hcomplete : ∀ i ∈ [1, 2], (Run.ofJson (boastfulRun i)).map (·.missing?) = some none := by
    decide +kernel
  obtain ⟨r, hr, hmissing⟩ := Option.map_eq_some_iff.mp (hcomplete 1 (by decide))
  obtain ⟨r', hr', hmissing'⟩ := Option.map_eq_some_iff.mp (hcomplete 2 (by decide))
  have hread : ∀ s ∈ [r, r'], ∃ v, Run.ofJson v = some s := by
    simp only [List.forall_mem_cons]
    exact ⟨⟨_, hr⟩, ⟨_, hr'⟩, by simp⟩
  have complete : ∀ s ∈ [r, r'], s.Complete := by
    simp only [List.forall_mem_cons]
    exact ⟨r.complete_iff.mpr hmissing, r'.complete_iff.mpr hmissing', by simp⟩
  obtain ⟨groups, hgroups⟩ := exists_aggregate_iff.mpr complete
  exact ⟨r, r', groups, hr, hr', hread, hgroups, toJson_of_aggregate durationCatalog hread hgroups⟩

end RunCompare
