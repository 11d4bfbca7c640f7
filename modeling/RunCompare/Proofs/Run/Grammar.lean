/-
The grammar of runs.

A run is read from an object by the values that stand under its known keys, and
the grammar says of each key which values these may be (`KnownField.Allows`): one
of the type of the field; if the field is optional also null, or none at all;
and never two.  What stands under other keys is not looked at.  A field may be a
record of its own, so the grammar of a run contains that of its report, and this
the grammars of the two phases.

`Run.ofJson_grammar` is that exactly the objects of the grammar are read as
runs.  What is read does not depend on the order of entries, and of several
values under an unknown key the last is kept.

JSON has no way to write a number that is not finite, so a number of the grammar
is a finite one; every integer of 64 bits is (`isNumber_int`).
-/
import RunCompare.Proofs.Binary64.Product
import RunCompare.Proofs.Json.Reordering
import RunCompare.Proofs.Run.Codec

namespace RunCompare

open Json

variable {α β ρ : Type}

namespace Json

/-! ### The types of fields -/

/-- A text. -/
def IsText (v : Json α) : Prop := ∃ s, v = .str s

/-- An unsigned integer of 64 bits, written without point and exponent. -/
def IsCount (v : Json α) : Prop := ∃ n : Nat, n < 2 ^ 64 ∧ v = .int n

/-- A number, written as an integer or with a fraction. -/
def IsNumber [Scalar α] (v : Json α) : Prop :=
  (∃ i, v = .int i ∧ Scalar.isFinite (scalarOfInt i : α) = true) ∨
    ∃ x, v = .float x ∧ Scalar.isFinite x = true

/-- A reader reads exactly the values of a type. -/
def Reads (read : Json α → Option β) (type : Json α → Prop) : Prop :=
  ∀ v, (∃ x, read v = some x) ↔ type v

theorem reads_text : Reads (α := α) text? IsText := by
  intro v
  cases v with
  | str s => exact iff_of_true ⟨s, rfl⟩ ⟨s, rfl⟩
  | null | bool _ | int _ | float _ | arr _ | obj _ =>
      exact iff_of_false (fun h => nomatch h) fun h => nomatch h

theorem reads_count : Reads (α := α) count? IsCount := by
  intro v
  cases v with
  | int i =>
      have hrange : (.int i : Json α).IsCount ↔ 0 ≤ i ∧ i < UInt64.size := by
        constructor
        · rintro ⟨n, hn, heq⟩
          cases heq
          exact ⟨Int.natCast_nonneg n, Int.ofNat_lt.mpr hn⟩
        · rintro ⟨hlow, hhigh⟩
          refine ⟨i.toNat, ?_, congrArg int (Int.toNat_of_nonneg hlow).symm⟩
          exact (Int.toNat_lt hlow).mpr hhigh
      rw [hrange]
      show (∃ n, (if 0 ≤ i ∧ i < UInt64.size then some (UInt64.ofNat i.toNat) else none) =
        some n) ↔ _
      by_cases h : 0 ≤ i ∧ i < UInt64.size
      · rw [if_pos h]
        exact iff_of_true ⟨_, rfl⟩ h
      · rw [if_neg h]
        exact iff_of_false (fun hread => nomatch hread) h
  | null | bool _ | float _ | str _ | arr _ | obj _ =>
      exact iff_of_false (fun h => nomatch h) fun h => nomatch h

theorem reads_finite [Scalar α] : Reads (α := α) finite IsNumber := by
  intro v
  cases v with
  | int i => simp [finite, number?, IsNumber]
  | float x => simp [finite, number?, IsNumber]
  | null | bool _ | str _ | arr _ | obj _ => simp [finite, number?, IsNumber]

/-- For the program's numbers, an integer of 64 bits is a number. -/
theorem isNumber_int {i : Int} (h : i.natAbs < 2 ^ 64) : (.int i : Json Binary64).IsNumber := by
  have hnat : (Binary64.ofNat i.natAbs).isFinite = true := by
    rcases Nat.eq_zero_or_pos i.natAbs with hzero | hpos
    · rw [hzero]
      decide
    · exact (Binary64.ofNat_isFinite hpos h).1
  have hneg : (Binary64.ofNat i.natAbs).negate.isFinite = true := by
    have hmagnitude : (Binary64.ofNat i.natAbs).magnitude < Binary64.signWeight :=
      Nat.mod_lt _ (by decide)
    rw [Binary64.isFinite, Binary64.negate, Binary64.magnitude_ofParts hmagnitude]
    exact hnat
  refine Or.inl ⟨i, rfl, ?_⟩
  unfold scalarOfInt
  by_cases hi : i < 0
  · rw [if_pos hi]
    exact hneg
  · rw [if_neg hi]
    exact hnat

/-! ### Records -/

theorem eq_singleton_of_head? {vs : List β} {v : β} (once : vs.length ≤ 1) (h : vs.head? = some v) :
    vs = [v] := by
  match vs, once, h with
  | [_], _, h => exact congrArg (fun x => [x]) (Option.some.inj h)

/-- What a record asks of one of its known fields. -/
structure KnownField (α : Type) where
  key : String
  /-- The field may be missing or null. -/
  optional : Bool
  type : Json α → Prop

/-- The values that may stand under the key of a field. -/
inductive KnownField.Allows (field : KnownField α) : List (Json α) → Prop
  | value {v : Json α} (typed : field.type v) : Allows field [v]
  | null (optional : field.optional = true) : Allows field [.null]
  | missing (optional : field.optional = true) : Allows field []

/-- An object with values that the known fields allow, and with anything under other keys. -/
def IsRecord (known : List (KnownField α)) (v : Json α) : Prop :=
  ∃ entries, v = .obj entries ∧ ∀ field ∈ known, field.Allows (valuesUnder field.key entries)

theorem KnownField.Allows.length_le {field : KnownField α} {vs : List (Json α)}
    (h : field.Allows vs) : vs.length ≤ 1 := by
  cases h with
  | value _ | null _ | missing _ => simp

/-- **The values under an unknown key do not decide whether an object is a record.** -/
theorem isRecord_insert_iff {known : List (KnownField α)} {k : String}
    (hk : k ∉ known.map (·.key)) (w : Json α) (before after : List (String × Json α)) :
    IsRecord known (.obj (before ++ (k, w) :: after)) ↔ IsRecord known (.obj (before ++ after)) := by
  have hvalues : ∀ field ∈ known, valuesUnder field.key (before ++ (k, w) :: after) =
      valuesUnder field.key (before ++ after) := by
    intro field hfield
    refine valuesUnder_insert_of_ne (fun heq => hk ?_) w before after
    rw [heq]
    exact List.mem_map_of_mem hfield
  constructor
  · rintro ⟨entries, heq, hallows⟩
    cases heq
    refine ⟨_, rfl, fun field hfield => ?_⟩
    rw [← hvalues field hfield]
    exact hallows field hfield
  · rintro ⟨entries, heq, hallows⟩
    cases heq
    refine ⟨_, rfl, fun field hfield => ?_⟩
    rw [hvalues field hfield]
    exact hallows field hfield

section

variable {read : Json α → Option β} {type : Json α → Prop} {k : String}
  {entries : List (String × Json α)}

/-- A field that has to be there is read from what it allows. -/
theorem Reads.required (hread : Reads read type) :
    (⟨k, false, type⟩ : KnownField α).Allows (valuesUnder k entries) ↔
      (valuesUnder k entries).length ≤ 1 ∧ ∃ x, requiredField read k entries = some x := by
  unfold requiredField
  rw [lookup_eq_head?]
  generalize valuesUnder k entries = vs
  constructor
  · intro h
    refine ⟨h.length_le, ?_⟩
    cases h with
    | value typed => exact (hread _).mpr typed
    | null optional | missing optional => cases optional
  · rintro ⟨once, x, hx⟩
    obtain ⟨v, hv, hx⟩ := Option.bind_eq_some_iff.mp hx
    rw [eq_singleton_of_head? once hv]
    exact .value ((hread v).mp ⟨x, hx⟩)

/-- A field that may be missing or null is read from what it allows. -/
theorem Reads.optional (hread : Reads read type) :
    (⟨k, true, type⟩ : KnownField α).Allows (valuesUnder k entries) ↔
      (valuesUnder k entries).length ≤ 1 ∧ ∃ x, optionalField read k entries = some x := by
  have hlookup := lookup_eq_head? k entries
  generalize valuesUnder k entries = vs at hlookup
  constructor
  · intro h
    refine ⟨h.length_le, ?_⟩
    cases h with
    | @value v typed =>
        by_cases hnull : v = .null
        · unfold optionalField
          rw [hlookup, hnull]
          exact ⟨none, rfl⟩
        · obtain ⟨x, hx⟩ := (hread v).mpr typed
          exact ⟨some x, by rw [optionalField_of_ne_null hlookup hnull, hx]; rfl⟩
    | null _ | missing _ =>
        unfold optionalField
        rw [hlookup]
        exact ⟨none, rfl⟩
  · rintro ⟨once, part, hpart⟩
    rcases Returns.optional_cases hpart with ⟨-, hnone | hnull⟩ | ⟨v, x, -, hv, -, hx⟩
    · rw [hnone] at hlookup
      rw [List.head?_eq_none_iff.mp hlookup.symm]
      exact .missing rfl
    · rw [hnull] at hlookup
      rw [eq_singleton_of_head? once hlookup.symm]
      exact .null rfl
    · rw [hv] at hlookup
      rw [eq_singleton_of_head? once hlookup.symm]
      exact .value ((hread v).mp ⟨x, hx⟩)

end

end Json

/-! ### What holds of every kind of record -/

namespace RecordFormat

/-- Whether an object is read does not depend on what it has under unknown keys. -/
def IgnoresUnknown (f : RecordFormat α ρ) : Prop :=
  ∀ before after k w, k ∉ f.known →
    ((∃ r, f.read (.obj (before ++ (k, w) :: after)) = some r) ↔
      ∃ r, f.read (.obj (before ++ after)) = some r)

/-- A record has the last of the values that its object has under an unknown key. -/
def KeepsLast (f : RecordFormat α ρ) (v : Json α) (r : ρ) : Prop :=
  ∃ entries, v = .obj entries ∧
    ∀ k ∉ f.known, (f.others r).get? k = (valuesUnder k entries).getLast?.map canonical

variable {f : RecordFormat α ρ} {Holds : List (String × Json α) → ρ → Prop}

theorem ignoresUnknown_of_reads {known : List (KnownField α)}
    (hkeys : known.map (·.key) = f.known) (hread : Reads f.read (IsRecord known)) :
    f.IgnoresUnknown := by
  intro before after k w hk
  rw [hread, hread]
  exact isRecord_insert_iff (hkeys ▸ hk) w before after

/-- A record is read from an object that gives no known key twice and has the fields. -/
theorem Lawful.exists_read_iff (hf : f.Lawful Holds) {v : Json α} :
    (∃ r, f.read v = some r) ↔ ∃ entries, v = .obj entries ∧
      (∀ k ∈ f.known, (valuesUnder k entries).length ≤ 1) ∧
        ∃ r, Holds entries r ∧ otherFields f.known entries = f.others r := by
  constructor
  · rintro ⟨r, hread⟩
    obtain ⟨entries, hentries, hfields⟩ := hf.read_iff.mp hread
    obtain ⟨rfl, hrepeats⟩ := entries?_eq_some.mp hentries
    exact ⟨entries, rfl, repeatsKnown_eq_false_iff.mp hrepeats, r, hfields⟩
  · rintro ⟨entries, rfl, once, r, hfields⟩
    have hentries : (Json.obj entries).entries? f.known = some entries :=
      entries?_eq_some.mpr ⟨rfl, repeatsKnown_eq_false_iff.mpr once⟩
    exact ⟨r, hf.read_iff.mpr ⟨entries, hentries, hfields⟩⟩

theorem Lawful.keepsLast (hf : f.Lawful Holds) {v : Json α} {r : ρ} (hread : f.read v = some r) :
    f.KeepsLast v r := by
  obtain ⟨entries, hentries, -⟩ := hf.read_iff.mp hread
  obtain ⟨rfl, -⟩ := entries?_eq_some.mp hentries
  refine ⟨entries, rfl, fun k hk => ?_⟩
  rw [(hf.keeps hread).others k, if_neg hk, field?_canonical, get?_ofList_eq_getLast?]

/-- A record whose fields are read alike from alike entries does not look at their order. -/
theorem Lawful.respects (hf : f.Lawful Holds)
    (alike : ∀ {entries entries' r}, Alike entries entries' → Holds entries r → Holds entries' r) :
    Respects f.read := by
  have transfer : ∀ {v v' r}, Reordered v v' → f.read v = some r → f.read v' = some r := by
    intro v v' r h hread
    obtain ⟨entries, hentries, hholds, hothers⟩ := hf.read_iff.mp hread
    obtain ⟨rfl, honce⟩ := entries?_eq_some.mp hentries
    obtain ⟨entries', rfl, halike⟩ := h.alike entries rfl
    have honce' : repeatsKnown f.known entries' = false := (halike.repeatsKnown_eq _).symm.trans honce
    refine hf.read_iff.mpr ⟨entries', entries?_eq_some.mpr ⟨rfl, honce'⟩, alike halike hholds, ?_⟩
    rw [← hothers]
    refine KeyMap.eq_of_get? fun k => ?_
    rw [get?_otherFields, get?_otherFields, h.canonical_eq]
  intro v v' h
  exact Option.ext fun r => ⟨transfer h, transfer h.symm⟩

end RecordFormat

variable [Scalar α]

/-! ### The phases -/

namespace LeavesReport

/-- The known fields of a leaves phase. -/
def knownFields : List (KnownField α) :=
  [⟨"total_time", true, IsNumber⟩, ⟨"total_comparisons", true, IsCount⟩,
    ⟨"exact_matches", true, IsCount⟩, ⟨"similarity_time", true, IsNumber⟩,
    ⟨"similarity_checks", true, IsCount⟩, ⟨"characters_compared", true, IsCount⟩]

theorem reads : Reads (α := α) ofJson (IsRecord knownFields) := by
  intro v
  refine lawful.exists_read_iff.trans ?_
  simp only [format, keys, IsRecord, knownFields, List.forall_mem_cons, reads_finite.optional,
    reads_count.optional]
  refine exists_congr fun entries => and_congr_right fun _ => ?_
  constructor
  · rintro ⟨⟨o₁, o₂, o₃, o₄, o₅, o₆, -⟩, r, h, -⟩
    exact ⟨⟨o₁, _, h.totalTime⟩, ⟨o₂, _, h.totalComparisons⟩, ⟨o₃, _, h.exactMatches⟩,
      ⟨o₄, _, h.similarityTime⟩, ⟨o₅, _, h.similarityChecks⟩, ⟨o₆, _, h.charactersCompared⟩,
      by simp⟩
  · rintro ⟨⟨o₁, totalTime, h₁⟩, ⟨o₂, totalComparisons, h₂⟩, ⟨o₃, exactMatches, h₃⟩,
      ⟨o₄, similarityTime, h₄⟩, ⟨o₅, similarityChecks, h₅⟩, ⟨o₆, charactersCompared, h₆⟩, -⟩
    exact ⟨⟨o₁, o₂, o₃, o₄, o₅, o₆, by simp⟩,
      { totalTime, totalComparisons, exactMatches, similarityTime, similarityChecks,
        charactersCompared, others := otherFields keys entries },
      ⟨h₁, h₂, h₃, h₄, h₅, h₆⟩, rfl⟩

theorem respects : Respects (α := α) ofJson := by
  refine lawful.respects fun {entries entries' r} halike h => ?_
  exact
    { totalTime := (respects_finite.optional halike _).symm.trans h.totalTime
      totalComparisons := (respects_count.optional halike _).symm.trans h.totalComparisons
      exactMatches := (respects_count.optional halike _).symm.trans h.exactMatches
      similarityTime := (respects_finite.optional halike _).symm.trans h.similarityTime
      similarityChecks := (respects_count.optional halike _).symm.trans h.similarityChecks
      charactersCompared := (respects_count.optional halike _).symm.trans h.charactersCompared }

end LeavesReport

namespace BottomUpReport

/-- The known fields of a bottom-up phase. -/
def knownFields : List (KnownField α) :=
  [⟨"total_time", true, IsNumber⟩, ⟨"similarity_time", true, IsNumber⟩]

theorem reads : Reads (α := α) ofJson (IsRecord knownFields) := by
  intro v
  refine lawful.exists_read_iff.trans ?_
  simp only [format, keys, IsRecord, knownFields, List.forall_mem_cons, reads_finite.optional]
  refine exists_congr fun entries => and_congr_right fun _ => ?_
  constructor
  · rintro ⟨⟨o₁, o₂, -⟩, r, h, -⟩
    exact ⟨⟨o₁, _, h.totalTime⟩, ⟨o₂, _, h.similarityTime⟩, by simp⟩
  · rintro ⟨⟨o₁, totalTime, h₁⟩, ⟨o₂, similarityTime, h₂⟩, -⟩
    exact ⟨⟨o₁, o₂, by simp⟩,
      { totalTime, similarityTime, others := otherFields keys entries }, ⟨h₁, h₂⟩, rfl⟩

theorem respects : Respects (α := α) ofJson := by
  refine lawful.respects fun {entries entries' r} halike h => ?_
  exact
    { totalTime := (respects_finite.optional halike _).symm.trans h.totalTime
      similarityTime := (respects_finite.optional halike _).symm.trans h.similarityTime }

end BottomUpReport

/-! ### The report -/

namespace PhaseReport

/-- The known fields of a report. -/
def knownFields : List (KnownField α) :=
  [⟨"leaves", true, IsRecord LeavesReport.knownFields⟩,
    ⟨"bottomup", true, IsRecord BottomUpReport.knownFields⟩]

theorem reads : Reads (α := α) ofJson (IsRecord knownFields) := by
  intro v
  refine lawful.exists_read_iff.trans ?_
  rw [IsRecord]
  simp only [format, keys, knownFields, List.forall_mem_cons, LeavesReport.reads.optional,
    BottomUpReport.reads.optional]
  refine exists_congr fun entries => and_congr_right fun _ => ?_
  constructor
  · rintro ⟨⟨o₁, o₂, -⟩, r, h, -⟩
    exact ⟨⟨o₁, _, h.leaves⟩, ⟨o₂, _, h.bottomUp⟩, by simp⟩
  · rintro ⟨⟨o₁, leaves, h₁⟩, ⟨o₂, bottomUp, h₂⟩, -⟩
    exact ⟨⟨o₁, o₂, by simp⟩,
      { leaves, bottomUp, others := otherFields keys entries }, ⟨h₁, h₂⟩, rfl⟩

theorem respects : Respects (α := α) ofJson := by
  refine lawful.respects fun {entries entries' r} halike h => ?_
  exact
    { leaves := (LeavesReport.respects.optional halike _).symm.trans h.leaves
      bottomUp := (BottomUpReport.respects.optional halike _).symm.trans h.bottomUp }

/-- A report and the phases in it have the last values of their unknown keys. -/
structure KeepsLast (v : Json α) (r : PhaseReport α) : Prop where
  report : format.KeepsLast v r
  leaves : ∀ l, r.leaves = some l →
    ∃ w, v.field? "leaves" = some w ∧ LeavesReport.format.KeepsLast w l
  bottomUp : ∀ b, r.bottomUp = some b →
    ∃ w, v.field? "bottomup" = some w ∧ BottomUpReport.format.KeepsLast w b

theorem keepsLast_of_read {v : Json α} {r : PhaseReport α} (hread : ofJson v = some r) :
    r.KeepsLast v := by
  obtain ⟨entries, hentries, hholds, -⟩ := lawful.read_iff.mp hread
  obtain ⟨rfl, -⟩ := entries?_eq_some.mp hentries
  refine ⟨lawful.keepsLast hread, ?_, ?_⟩
  · intro l hl
    obtain ⟨w, hw, hwl⟩ := Returns.of_optional (hl ▸ hholds.leaves)
    exact ⟨w, hw, LeavesReport.lawful.keepsLast hwl⟩
  · intro b hb
    obtain ⟨w, hw, hwb⟩ := Returns.of_optional (hb ▸ hholds.bottomUp)
    exact ⟨w, hw, BottomUpReport.lawful.keepsLast hwb⟩

end PhaseReport

/-! ### The run -/

namespace Run

/-- The known fields of a run. -/
def knownFields : List (KnownField α) :=
  [⟨"file_name", false, IsText⟩, ⟨"config_name", false, IsText⟩,
    ⟨"test_case_index", false, IsCount⟩, ⟨"node_count", false, IsCount⟩, ⟨"loc", false, IsCount⟩,
    ⟨"duration_secs", false, IsNumber⟩, ⟨"diff_summary", true, IsRecord PhaseReport.knownFields⟩]

theorem reads : Reads (α := α) ofJson (IsRecord knownFields) := by
  intro v
  refine lawful.exists_read_iff.trans ?_
  rw [IsRecord]
  simp only [format, keys, knownFields, List.forall_mem_cons, reads_text.required,
    reads_count.required, reads_finite.required, PhaseReport.reads.optional]
  refine exists_congr fun entries => and_congr_right fun _ => ?_
  constructor
  · rintro ⟨⟨o₁, o₂, o₃, o₄, o₅, o₆, o₇, -⟩, r, h, -⟩
    exact ⟨⟨o₁, _, h.file⟩, ⟨o₂, _, h.config⟩, ⟨o₃, _, h.testCase⟩, ⟨o₄, _, h.nodeCount⟩,
      ⟨o₅, _, h.loc⟩, ⟨o₆, _, h.durationSecs⟩, ⟨o₇, _, h.report⟩, by simp⟩
  · rintro ⟨⟨o₁, file, h₁⟩, ⟨o₂, config, h₂⟩, ⟨o₃, testCase, h₃⟩, ⟨o₄, nodeCount, h₄⟩,
      ⟨o₅, loc, h₅⟩, ⟨o₆, durationSecs, h₆⟩, ⟨o₇, report, h₇⟩, -⟩
    exact ⟨⟨o₁, o₂, o₃, o₄, o₅, o₆, o₇, by simp⟩,
      { file, config, testCase, nodeCount, loc, durationSecs, report,
        others := otherFields keys entries },
      ⟨h₁, h₂, h₃, h₄, h₅, h₆, h₇⟩, rfl⟩

theorem respects : Respects (α := α) ofJson := by
  refine lawful.respects fun {entries entries' r} halike h => ?_
  exact
    { file := (respects_text.required halike _).symm.trans h.file
      config := (respects_text.required halike _).symm.trans h.config
      testCase := (respects_count.required halike _).symm.trans h.testCase
      nodeCount := (respects_count.required halike _).symm.trans h.nodeCount
      loc := (respects_count.required halike _).symm.trans h.loc
      durationSecs := (respects_finite.required halike _).symm.trans h.durationSecs
      report := (PhaseReport.respects.optional halike _).symm.trans h.report }

/-- A run and the records inside it have the last values of their unknown keys. -/
structure KeepsLast (v : Json α) (r : Run α) : Prop where
  run : format.KeepsLast v r
  report : ∀ p, r.report = some p → ∃ w, v.field? "diff_summary" = some w ∧ p.KeepsLast w

theorem keepsLast_of_read {v : Json α} {r : Run α} (hread : ofJson v = some r) :
    r.KeepsLast v := by
  obtain ⟨entries, hentries, hholds, -⟩ := lawful.read_iff.mp hread
  obtain ⟨rfl, -⟩ := entries?_eq_some.mp hentries
  refine ⟨lawful.keepsLast hread, fun p hp => ?_⟩
  obtain ⟨w, hw, hwp⟩ := Returns.of_optional (hp ▸ hholds.report)
  exact ⟨w, hw, PhaseReport.keepsLast_of_read hwp⟩

/-- What the entries of an object decide about reading it as a run. -/
structure Grammar (entries : List (String × Json α)) : Prop where
  /-- The objects of the grammar are read, and no others. -/
  accepted : (∃ r, ofJson (.obj entries) = some r) ↔ IsRecord knownFields (.obj entries)
  /-- Of several values under an unknown key the last is kept, at every level. -/
  kept : ∀ r, ofJson (.obj entries) = some r → r.KeepsLast (.obj entries)
  /-- Objects with distinct keys may list their entries in any order, at every level. -/
  reordered : ∀ v, Reordered (.obj entries) v → ofJson v = ofJson (.obj entries)

/--
**Runs are read from the objects of the grammar, whatever their order and their unknown keys.**
-/
theorem ofJson_grammar (entries : List (String × Json α)) :
    Grammar entries ∧ (format (α := α)).IgnoresUnknown ∧
      (PhaseReport.format (α := α)).IgnoresUnknown ∧
      (LeavesReport.format (α := α)).IgnoresUnknown ∧
      (BottomUpReport.format (α := α)).IgnoresUnknown := by
  refine ⟨⟨reads _, fun _ hread => keepsLast_of_read hread, fun _ h => (respects h).symm⟩, ?_⟩
  exact ⟨RecordFormat.ignoresUnknown_of_reads rfl reads,
    RecordFormat.ignoresUnknown_of_reads rfl PhaseReport.reads,
    RecordFormat.ignoresUnknown_of_reads rfl LeavesReport.reads,
    RecordFormat.ignoresUnknown_of_reads rfl BottomUpReport.reads⟩

end Run

/-- The entries of a run with unknown keys at two levels, no key given twice. -/
def plainEntries : List (String × Json Binary64) :=
  [("file_name", .str "a"), ("config_name", .str "Fast"), ("test_case_index", .int 3),
    ("node_count", .int 10), ("loc", .int 20), ("duration_secs", .int 2), ("repetition", .int 1),
    ("diff_summary", .obj [("leaves", .null), ("nodes", .bool true)])]

/-- The same run with its entries listed in another order, at both levels. -/
def turnedRun : Json Binary64 :=
  .obj
    [("diff_summary", .obj [("nodes", .bool true), ("leaves", .null)]), ("repetition", .int 1),
      ("duration_secs", .int 2), ("loc", .int 20), ("node_count", .int 10),
      ("test_case_index", .int 3), ("config_name", .str "Fast"), ("file_name", .str "a")]

theorem ofJson_grammar_turnedRun : Reordered (.obj plainEntries) turnedRun ∧
    IsRecord Run.knownFields (.obj plainEntries) ∧
      Run.ofJson turnedRun = Run.ofJson (.obj plainEntries) := by
  have swapped : Reordered (.obj [("leaves", .null), ("nodes", .bool true)] : Json Binary64)
      (.obj [("nodes", .bool true), ("leaves", .null)]) :=
    Reordered.listed (by decide) (List.Perm.swap _ _ _)
  have inside : Reordered (.obj plainEntries) (.obj (plainEntries.take 7 ++
      [("diff_summary", .obj [("nodes", .bool true), ("leaves", .null)])])) :=
    @Reordered.field _ (plainEntries.take 7) [] "diff_summary" _ _ swapped
  have reordered : Reordered (.obj plainEntries) turnedRun :=
    inside.trans (Reordered.listed (by decide) (List.reverse_perm _).symm)
  have hsome : (Run.ofJson (.obj plainEntries)).isSome = true := by decide +kernel
  obtain ⟨accepted, -, kept⟩ := (Run.ofJson_grammar plainEntries).1
  exact ⟨reordered, accepted.mp (Option.isSome_iff_exists.mp hsome), kept _ reordered⟩

end RunCompare
