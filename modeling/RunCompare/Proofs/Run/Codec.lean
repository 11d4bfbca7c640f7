/-
Reading back what is written of a record.

A record is read from an object by its known fields and keeps the others beside
them.  Written and read again it is the same record (`RecordFormat.Keeps`): a
part that was missing and one that was null are both absent, and written as
null; an unknown key has the value that it had; and it is never taken for a
known one.

The argument is the same for every record and is made once
(`RecordFormat.Lawful.keeps`).  What a record brings along is which fields are
read for it, and that each of them is read again from what is written.  The
phases of a run are fields of its report, and this is a field of the run, so
the record inside has to be shown to be one first.
-/
import RunCompare.Proofs.Json.Fields
import RunCompare.Run.Basic
import RunCompare.Binary64.Scalar

namespace RunCompare

open Json

variable {α ρ : Type}

/-- How a kind of record is read from an object and written as one. -/
structure RecordFormat (α ρ : Type) where
  read : Json α → Option ρ
  write : ρ → Json α
  /-- The known keys. -/
  known : List String
  /-- The fields under the known keys, as they are written. -/
  fields : ρ → List (String × Json α)
  /-- The other fields. -/
  others : ρ → KeyMap (Json α)
  /-- The keys of the parts that a record may lack, each with whether this one lacks it. -/
  optional : List (String × (ρ → Bool))

namespace RecordFormat

/-- What a record keeps of the object that it was read from. -/
structure Keeps (f : RecordFormat α ρ) (v : Json α) (r : ρ) : Prop where
  /-- The record is read again from what is written of it. -/
  again : f.read (f.write r) = some r
  /-- What is written of it then is the same as before. -/
  sameTree : (f.read (f.write r)).map f.write = some (f.write r)
  /-- The other fields are those under unknown keys, with their values. -/
  others : ∀ k, (f.others r).get? k = if k ∈ f.known then none else v.canonical.field? k
  /-- An unknown key is written with the value that it had. -/
  unknown : ∀ k ∉ f.known, (f.write r).field? k = v.canonical.field? k
  /-- A known key is written with the field of the record. -/
  known : ∀ k ∈ f.known, (f.write r).field? k = (f.fields r).lookup k
  /-- A part is absent if its field was missing or null, and only then. -/
  absent : ∀ part ∈ f.optional,
    (part.2 r = true ↔ v.field? part.1 = none ∨ v.field? part.1 = some .null)
  /-- An absent part is written as null, and no other part is. -/
  null : ∀ part ∈ f.optional, (part.2 r = true ↔ (f.write r).field? part.1 = some .null)

/-- A kind of record is read field by field: `Holds` says that a record has the fields that are
read from some entries. -/
structure Lawful (f : RecordFormat α ρ) (Holds : List (String × Json α) → ρ → Prop) : Prop where
  written : ∀ r, f.write r = withOthers (f.fields r) (f.others r)
  keys : ∀ r, (f.fields r).map (·.1) = f.known
  distinct : f.known.Nodup
  optionalKnown : ∀ part ∈ f.optional, part.1 ∈ f.known
  read_iff : ∀ {v r}, f.read v = some r ↔ ∃ entries, v.entries? f.known = some entries ∧
    Holds entries r ∧ otherFields f.known entries = f.others r
  /-- The fields are read again from entries that hold what is written. -/
  again : ∀ {entries entries' r}, Holds entries r →
    (∀ k ∈ f.known, entries'.lookup k = (f.fields r).lookup k) → Holds entries' r
  /-- A part is absent if its field is missing or null, and is written as null then. -/
  absent : ∀ {entries r}, Holds entries r → ∀ part ∈ f.optional,
    (part.2 r = true ↔ entries.lookup part.1 = none ∨ entries.lookup part.1 = some .null) ∧
      (part.2 r = true ↔ (f.fields r).lookup part.1 = some .null)

variable {f : RecordFormat α ρ} {Holds : List (String × Json α) → ρ → Prop} {v : Json α} {r : ρ}

/-- **A record keeps what it was read from.** -/
theorem Lawful.keeps (hf : f.Lawful Holds) (hread : f.read v = some r) : f.Keeps v r := by
  obtain ⟨entries, hentries, hholds, hothers⟩ := hf.read_iff.mp hread
  obtain ⟨rfl, -⟩ := entries?_eq_some.mp hentries
  have hget : ∀ k, (f.others r).get? k =
      if k ∈ f.known then none else (Json.obj entries).canonical.field? k := by
    intro k
    rw [← hothers, get?_otherFields]
  obtain ⟨entries', hwritten, hentries', hlookup, hothers'⟩ :=
    entries?_withOthers (hf.keys r) hf.distinct fun k hk => (hget k).trans (if_pos hk)
  rw [← hf.written r] at hwritten hentries'
  have hknown : ∀ k ∈ f.known, entries'.lookup k = (f.fields r).lookup k :=
    fun k hk => (hlookup k).trans (if_pos hk)
  have hagain : f.read (f.write r) = some r := by
    refine hf.read_iff.mpr ⟨entries', hentries', hf.again hholds hknown, ?_⟩
    rw [hothers', ← hothers, map_canonical_otherFields]
  have hfield : ∀ k, (f.write r).field? k = entries'.lookup k := by
    intro k
    rw [hwritten]
    rfl
  refine ⟨hagain, by rw [hagain]; rfl, hget, ?_, ?_, ?_, ?_⟩
  · intro k hk
    rw [hfield, hlookup, if_neg hk, hget, if_neg hk]
  · intro k hk
    rw [hfield, hknown k hk]
  · intro part hpart
    exact (hf.absent hholds part hpart).1
  · intro part hpart
    rw [hfield, hknown part.1 (hf.optionalKnown part hpart)]
    exact (hf.absent hholds part hpart).2

/-- A kind of record can be the kind of a field. -/
theorem Lawful.returns (hf : f.Lawful Holds) : Returns f.read f.write where
  again hread := (hf.keeps hread).again
  notNull {_ r} _ := by
    rw [hf.written r]
    exact nofun

end RecordFormat

variable [Scalar α]

/-! ### The leaves phase -/

namespace LeavesReport

/-- The counters of a leaves phase as they are written. -/
def format : RecordFormat α (LeavesReport α) where
  read := ofJson
  write := toJson
  known := keys
  fields r :=
    [("total_time", ofOption ofScalar r.totalTime),
      ("total_comparisons", ofOption ofCount r.totalComparisons),
      ("exact_matches", ofOption ofCount r.exactMatches),
      ("similarity_time", ofOption ofScalar r.similarityTime),
      ("similarity_checks", ofOption ofCount r.similarityChecks),
      ("characters_compared", ofOption ofCount r.charactersCompared)]
  others r := r.others
  optional :=
    [("total_time", (·.totalTime.isNone)), ("total_comparisons", (·.totalComparisons.isNone)),
      ("exact_matches", (·.exactMatches.isNone)), ("similarity_time", (·.similarityTime.isNone)),
      ("similarity_checks", (·.similarityChecks.isNone)),
      ("characters_compared", (·.charactersCompared.isNone))]

/-- A leaves phase has the counters that are read from some entries. -/
structure Holds (entries : List (String × Json α)) (r : LeavesReport α) : Prop where
  totalTime : optionalField finite "total_time" entries = some r.totalTime
  totalComparisons : optionalField count? "total_comparisons" entries = some r.totalComparisons
  exactMatches : optionalField count? "exact_matches" entries = some r.exactMatches
  similarityTime : optionalField finite "similarity_time" entries = some r.similarityTime
  similarityChecks : optionalField count? "similarity_checks" entries = some r.similarityChecks
  charactersCompared :
    optionalField count? "characters_compared" entries = some r.charactersCompared

theorem lawful : (format (α := α)).Lawful Holds where
  written _ := rfl
  keys _ := rfl
  distinct := by
    show keys.Nodup
    decide
  optionalKnown := by simp [format, keys]
  read_iff {v r} := by
    show ofJson v = some r ↔ _
    simp only [ofJson, Option.bind_eq_bind, Option.bind_eq_some_iff, Option.pure_def,
      Option.some.injEq]
    constructor
    · rintro ⟨entries, hentries, _, h₁, _, h₂, _, h₃, _, h₄, _, h₅, _, h₆, rfl⟩
      exact ⟨entries, hentries, ⟨h₁, h₂, h₃, h₄, h₅, h₆⟩, rfl⟩
    · rintro ⟨entries, hentries, ⟨h₁, h₂, h₃, h₄, h₅, h₆⟩, hothers⟩
      refine ⟨entries, hentries, _, h₁, _, h₂, _, h₃, _, h₄, _, h₅, _, h₆, ?_⟩
      exact congrArg (fun others => { r with others }) hothers
  again {entries entries' r} h hwritten := by
    have hwritten : ∀ k ∈ keys, entries'.lookup k = (format.fields r).lookup k := hwritten
    exact
      { totalTime := returns_finite.optional h.totalTime (hwritten "total_time" (by decide))
        totalComparisons :=
          returns_count.optional h.totalComparisons (hwritten "total_comparisons" (by decide))
        exactMatches := returns_count.optional h.exactMatches (hwritten "exact_matches" (by decide))
        similarityTime :=
          returns_finite.optional h.similarityTime (hwritten "similarity_time" (by decide))
        similarityChecks :=
          returns_count.optional h.similarityChecks (hwritten "similarity_checks" (by decide))
        charactersCompared :=
          returns_count.optional h.charactersCompared (hwritten "characters_compared" (by decide)) }
  absent {entries r} h := by
    simp only [format, List.forall_mem_cons]
    exact ⟨returns_finite.absent_iff h.totalTime rfl, returns_count.absent_iff h.totalComparisons rfl,
      returns_count.absent_iff h.exactMatches rfl, returns_finite.absent_iff h.similarityTime rfl,
      returns_count.absent_iff h.similarityChecks rfl,
      returns_count.absent_iff h.charactersCompared rfl, nofun⟩

end LeavesReport

/-! ### The bottom-up phase -/

namespace BottomUpReport

/-- The format of a bottom-up phase. -/
def format : RecordFormat α (BottomUpReport α) where
  read := ofJson
  write := toJson
  known := keys
  fields r :=
    [("total_time", ofOption ofScalar r.totalTime),
      ("similarity_time", ofOption ofScalar r.similarityTime)]
  others r := r.others
  optional :=
    [("total_time", (·.totalTime.isNone)), ("similarity_time", (·.similarityTime.isNone))]

/-- A bottom-up phase has the counters that are read from some entries. -/
structure Holds (entries : List (String × Json α)) (r : BottomUpReport α) : Prop where
  totalTime : optionalField finite "total_time" entries = some r.totalTime
  similarityTime : optionalField finite "similarity_time" entries = some r.similarityTime

theorem lawful : (format (α := α)).Lawful Holds where
  written _ := rfl
  keys _ := rfl
  distinct := by
    show keys.Nodup
    decide
  optionalKnown := by simp [format, keys]
  read_iff {v r} := by
    show ofJson v = some r ↔ _
    simp only [ofJson, Option.bind_eq_bind, Option.bind_eq_some_iff, Option.pure_def,
      Option.some.injEq]
    constructor
    · rintro ⟨entries, hentries, _, h₁, _, h₂, rfl⟩
      exact ⟨entries, hentries, ⟨h₁, h₂⟩, rfl⟩
    · rintro ⟨entries, hentries, ⟨h₁, h₂⟩, hothers⟩
      refine ⟨entries, hentries, _, h₁, _, h₂, ?_⟩
      exact congrArg (fun others => { r with others }) hothers
  again {entries entries' r} h hwritten := by
    have hwritten : ∀ k ∈ keys, entries'.lookup k = (format.fields r).lookup k := hwritten
    exact
      { totalTime := returns_finite.optional h.totalTime (hwritten "total_time" (by decide))
        similarityTime :=
          returns_finite.optional h.similarityTime (hwritten "similarity_time" (by decide)) }
  absent {entries r} h := by
    simp only [format, List.forall_mem_cons]
    exact ⟨returns_finite.absent_iff h.totalTime rfl, returns_finite.absent_iff h.similarityTime rfl,
      nofun⟩

end BottomUpReport

/-! ### The report -/

namespace PhaseReport

/-- The format of a report. -/
def format : RecordFormat α (PhaseReport α) where
  read := ofJson
  write := toJson
  known := keys
  fields r :=
    [("leaves", ofOption LeavesReport.toJson r.leaves),
      ("bottomup", ofOption BottomUpReport.toJson r.bottomUp)]
  others r := r.others
  optional := [("leaves", (·.leaves.isNone)), ("bottomup", (·.bottomUp.isNone))]

/-- A report has the phases that are read from some entries. -/
structure Holds (entries : List (String × Json α)) (r : PhaseReport α) : Prop where
  leaves : optionalField LeavesReport.ofJson "leaves" entries = some r.leaves
  bottomUp : optionalField BottomUpReport.ofJson "bottomup" entries = some r.bottomUp

theorem lawful : (format (α := α)).Lawful Holds where
  written _ := rfl
  keys _ := rfl
  distinct := by
    show keys.Nodup
    decide
  optionalKnown := by simp [format, keys]
  read_iff {v r} := by
    show ofJson v = some r ↔ _
    simp only [ofJson, Option.bind_eq_bind, Option.bind_eq_some_iff, Option.pure_def,
      Option.some.injEq]
    constructor
    · rintro ⟨entries, hentries, _, h₁, _, h₂, rfl⟩
      exact ⟨entries, hentries, ⟨h₁, h₂⟩, rfl⟩
    · rintro ⟨entries, hentries, ⟨h₁, h₂⟩, hothers⟩
      refine ⟨entries, hentries, _, h₁, _, h₂, ?_⟩
      exact congrArg (fun others => { r with others }) hothers
  again {entries entries' r} h hwritten := by
    have hwritten : ∀ k ∈ keys, entries'.lookup k = (format.fields r).lookup k := hwritten
    exact
      { leaves := LeavesReport.lawful.returns.optional h.leaves (hwritten "leaves" (by decide))
        bottomUp :=
          BottomUpReport.lawful.returns.optional h.bottomUp (hwritten "bottomup" (by decide)) }
  absent {entries r} h := by
    simp only [format, List.forall_mem_cons]
    exact ⟨LeavesReport.lawful.returns.absent_iff h.leaves rfl,
      BottomUpReport.lawful.returns.absent_iff h.bottomUp rfl, nofun⟩

/-- A report and the phases in it keep what they were read from. -/
structure KeepsAll (v : Json α) (r : PhaseReport α) : Prop where
  report : format.Keeps v r
  leaves : ∀ l, r.leaves = some l →
    ∃ w, v.field? "leaves" = some w ∧ LeavesReport.format.Keeps w l
  bottomUp : ∀ b, r.bottomUp = some b →
    ∃ w, v.field? "bottomup" = some w ∧ BottomUpReport.format.Keeps w b

theorem keepsAll_of_read {v : Json α} {r : PhaseReport α} (hread : ofJson v = some r) :
    r.KeepsAll v := by
  obtain ⟨entries, hentries, hholds, -⟩ := lawful.read_iff.mp hread
  obtain ⟨rfl, -⟩ := entries?_eq_some.mp hentries
  refine ⟨lawful.keeps hread, ?_, ?_⟩
  · intro l hl
    obtain ⟨w, hw, hwl⟩ := Returns.of_optional (hl ▸ hholds.leaves)
    exact ⟨w, hw, LeavesReport.lawful.keeps hwl⟩
  · intro b hb
    obtain ⟨w, hw, hwb⟩ := Returns.of_optional (hb ▸ hholds.bottomUp)
    exact ⟨w, hw, BottomUpReport.lawful.keeps hwb⟩

end PhaseReport

/-! ### The run -/

namespace Run

/-- The format of a run. -/
def format : RecordFormat α (Run α) where
  read := ofJson
  write := toJson
  known := keys
  fields r :=
    [("file_name", .str r.file), ("config_name", .str r.config),
      ("test_case_index", ofCount r.testCase), ("node_count", ofCount r.nodeCount),
      ("loc", ofCount r.loc), ("duration_secs", ofScalar r.durationSecs),
      ("diff_summary", ofOption PhaseReport.toJson r.report)]
  others r := r.others
  optional := [("diff_summary", (·.report.isNone))]

/-- A run has the fields that are read from some entries. -/
structure Holds (entries : List (String × Json α)) (r : Run α) : Prop where
  file : requiredField text? "file_name" entries = some r.file
  config : requiredField text? "config_name" entries = some r.config
  testCase : requiredField count? "test_case_index" entries = some r.testCase
  nodeCount : requiredField count? "node_count" entries = some r.nodeCount
  loc : requiredField count? "loc" entries = some r.loc
  durationSecs : requiredField finite "duration_secs" entries = some r.durationSecs
  report : optionalField PhaseReport.ofJson "diff_summary" entries = some r.report

theorem lawful : (format (α := α)).Lawful Holds where
  written _ := rfl
  keys _ := rfl
  distinct := by
    show keys.Nodup
    decide
  optionalKnown := by simp [format, keys]
  read_iff {v r} := by
    show ofJson v = some r ↔ _
    simp only [ofJson, Option.bind_eq_bind, Option.bind_eq_some_iff, Option.pure_def,
      Option.some.injEq]
    constructor
    · rintro ⟨entries, hentries, _, h₁, _, h₂, _, h₃, _, h₄, _, h₅, _, h₆, _, h₇, rfl⟩
      exact ⟨entries, hentries, ⟨h₁, h₂, h₃, h₄, h₅, h₆, h₇⟩, rfl⟩
    · rintro ⟨entries, hentries, ⟨h₁, h₂, h₃, h₄, h₅, h₆, h₇⟩, hothers⟩
      refine ⟨entries, hentries, _, h₁, _, h₂, _, h₃, _, h₄, _, h₅, _, h₆, _, h₇, ?_⟩
      exact congrArg (fun others => { r with others }) hothers
  again {entries entries' r} h hwritten := by
    have hwritten : ∀ k ∈ keys, entries'.lookup k = (format.fields r).lookup k := hwritten
    exact
      { file := returns_text.required h.file (hwritten "file_name" (by decide))
        config := returns_text.required h.config (hwritten "config_name" (by decide))
        testCase := returns_count.required h.testCase (hwritten "test_case_index" (by decide))
        nodeCount := returns_count.required h.nodeCount (hwritten "node_count" (by decide))
        loc := returns_count.required h.loc (hwritten "loc" (by decide))
        durationSecs :=
          returns_finite.required h.durationSecs (hwritten "duration_secs" (by decide))
        report :=
          PhaseReport.lawful.returns.optional h.report (hwritten "diff_summary" (by decide)) }
  absent {entries r} h := by
    simp only [format, List.forall_mem_cons]
    exact ⟨PhaseReport.lawful.returns.absent_iff h.report rfl, nofun⟩

/-- Only a finite duration is read. -/
theorem isFinite_durationSecs {v : Json α} {r : Run α} (hread : ofJson v = some r) :
    Scalar.isFinite r.durationSecs = true := by
  obtain ⟨entries, -, hholds, -⟩ := lawful.read_iff.mp hread
  obtain ⟨w, -, hw⟩ := Option.bind_eq_some_iff.mp hholds.durationSecs
  exact (Option.filter_eq_some_iff.mp hw).2

/-- A run and the records inside it keep what they were read from. -/
structure KeepsAll (v : Json α) (r : Run α) : Prop where
  run : format.Keeps v r
  report : ∀ p, r.report = some p → ∃ w, v.field? "diff_summary" = some w ∧ p.KeepsAll w

/-- **A run that was read is read again from what is written of it**, and so are its report and
the phases in it. -/
theorem keepsAll_ofJson {v : Json α} {r : Run α} (hread : ofJson v = some r) : r.KeepsAll v := by
  obtain ⟨entries, hentries, hholds, -⟩ := lawful.read_iff.mp hread
  obtain ⟨rfl, -⟩ := entries?_eq_some.mp hentries
  refine ⟨lawful.keeps hread, fun p hp => ?_⟩
  obtain ⟨w, hw, hwp⟩ := Returns.of_optional (hp ▸ hholds.report)
  exact ⟨w, hw, PhaseReport.keepsAll_of_read hwp⟩

end Run

/-- A run with unknown keys at every level, some of them known at another one, with parts that are
missing or null, and with an unknown key given twice. -/
def annotatedRun : Json Binary64 :=
  .obj
    [("file_name", .str "a"), ("config_name", .str "Fast"), ("repetition", .int 1),
      ("test_case_index", .int 3), ("node_count", .int 10), ("loc", .int 20), ("leaves", .null),
      ("duration_secs", .int 2), ("repetition", .obj [("b", .null), ("a", .arr [.bool true])]),
      ("diff_summary", .obj
        [("mappings", .int 5), ("leaves", .obj
            [("total_time", .float (.ofNat 3)), ("exact_matches", .null), ("nodes", .str "x"),
              ("total_comparisons", .int 8)]),
          ("total_time", .int 7),
          ("bottomup", .obj [("similarity_time", .int 0), ("leaves", .obj [])])])]

theorem annotatedRun_keepsAll : ∃ r, Run.ofJson annotatedRun = some r ∧ r.KeepsAll annotatedRun ∧
    r.others.keys = ["leaves", "repetition"] := by
  have hkeys : (Run.ofJson annotatedRun).map (·.others.keys) = some ["leaves", "repetition"] := by
    decide +kernel
  obtain ⟨r, hread, hothers⟩ := Option.map_eq_some_iff.mp hkeys
  exact ⟨r, hread, Run.keepsAll_ofJson hread, hothers⟩

end RunCompare
