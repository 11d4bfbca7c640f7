/-
Reading runs line by line.

A line feed separates what stands before it from what stands behind it: the two
parts are read on their own and the readings put one after the other
(`ofText_seam`).  Only the first part has a header.  So everything about texts
comes down to texts of a single line (`ofText_line`), which are blank, a run, or
neither.

A line may end in a carriage return, which is blank.  The last line of a text is
reached by cutting the text at its last line feed, so that no list of lines is
needed to see that a blank character at its end changes nothing
(`ofText_concat_blank`).
-/
import RunCompare.Ingest
import Mathlib.Data.List.DropRight

namespace RunCompare

namespace Text

/-! ### Lines -/

theorem lines_append_cons (a b : List Char) : lines (a ++ '\n' :: b) = lines a ++ lines b :=
  List.splitOn_append_cons_self ..

theorem lines_of_not_mem {l : List Char} (h : '\n' ∉ l) : lines l = [l] :=
  List.splitOn_eq_singleton h

/-- A text is a single line, or it has a last line after a line feed. -/
theorem exists_lastLine (text : List Char) :
    '\n' ∉ text ∨ ∃ a l, text = a ++ '\n' :: l ∧ '\n' ∉ l := by
  by_cases h : '\n' ∈ text
  · obtain ⟨after, before, hsplit, hnot⟩ :=
      List.eq_append_cons_of_mem (List.mem_reverse.mpr h)
    refine Or.inr ⟨before.reverse, after.reverse, ?_, by simpa using hnot⟩
    rw [← List.reverse_reverse text, hsplit]
    simp
  · exact Or.inl h

/-! ### Blanks at the ends -/

theorem trim_eq_rdropWhile (l : List Char) :
    trim l = (l.dropWhile isBlank).rdropWhile isBlank := rfl

/-- Nothing is left of a text exactly if all of it is blank. -/
theorem trim_eq_nil_iff {l : List Char} : trim l = [] ↔ ∀ c ∈ l, isBlank c = true := by
  rw [trim_eq_rdropWhile, List.rdropWhile_eq_nil_iff]
  constructor
  · intro h
    rw [← List.dropWhile_eq_nil_iff]
    by_contra hne
    -- What is left after blanks are dropped begins with a character that is not blank.
    have hhead := List.head_dropWhile_not isBlank hne
    rw [h _ (List.head_mem hne)] at hhead
    cases hhead
  · intro h c hc
    exact h c (List.dropWhile_subset isBlank hc)

theorem isEmpty_trim (l : List Char) : (trim l).isEmpty = l.all isBlank := by
  rw [Bool.eq_iff_iff, List.isEmpty_iff, trim_eq_nil_iff, List.all_eq_true]

/-- A blank character at the end is trimmed. -/
theorem trim_concat_blank {c : Char} (hc : isBlank c = true) (l : List Char) :
    trim (l ++ [c]) = trim l := by
  simp only [trim_eq_rdropWhile, List.dropWhile_append]
  split
  · rename_i hall
    rw [List.isEmpty_iff.mp hall, List.dropWhile_cons_of_pos hc, List.dropWhile_nil]
  · exact List.rdropWhile_concat_pos isBlank _ c hc

end Text

open Text

/-! ### Readings -/

namespace Ingested

/-- Two readings, one after the other. -/
instance : Append Ingested := ⟨fun i j => ⟨i.runs ++ j.runs, i.skipped + j.skipped⟩⟩

theorem append_def (i j : Ingested) : i ++ j = ⟨i.runs ++ j.runs, i.skipped + j.skipped⟩ := rfl

theorem append_nothing (i : Ingested) : i ++ ⟨[], 0⟩ = i := by simp [append_def]

variable {skipHeader : Bool} {l : List Char}

theorem candidates_append_cons (skipHeader : Bool) (a b : List Char) :
    candidates skipHeader (a ++ '\n' :: b) = candidates skipHeader a ++ candidates false b := by
  have hlines : 0 < (lines a).length := List.length_pos_iff.mpr (List.splitOn_ne_nil '\n' a)
  have hdrop : (lines a ++ lines b).drop (if skipHeader then 1 else 0) =
      (lines a).drop (if skipHeader then 1 else 0) ++ lines b :=
    List.drop_append_of_le_length (by split <;> omega)
  unfold candidates
  rw [lines_append_cons, hdrop, List.map_append, List.filter_append]
  rfl

/-- **The parts before and behind a line feed are read on their own.** -/
theorem ofText_seam (skipHeader : Bool) (a b : List Char) :
    ofText skipHeader (a ++ '\n' :: b) = ofText skipHeader a ++ ofText false b := by
  simp only [ofText, candidates_append_cons, append_def, List.map_append, List.filterMap_append,
    List.countP_append]

theorem length_candidates (skipHeader : Bool) (text : List Char) :
    (candidates skipHeader text).length =
      ((lines text).drop (if skipHeader then 1 else 0)).countP fun l => !l.all isBlank := by
  unfold candidates
  rw [← List.countP_eq_length_filter, List.countP_map]
  simp only [Function.comp_def, isEmpty_trim]

/-- Every line that should be a run is read or counted. -/
theorem runs_add_skipped (skipHeader : Bool) (text : List Char) :
    (ofText skipHeader text).runs.length + (ofText skipHeader text).skipped =
      (candidates skipHeader text).length := by
  have hnone : (fun r : Option (Run Binary64) => decide ¬r.isSome = true) = (·.isNone) := by
    funext r
    cases r <;> rfl
  have hcount := List.length_eq_countP_add_countP (fun r : Option (Run Binary64) => r.isSome)
    (l := (candidates skipHeader text).map Run.ofText?)
  rw [List.length_map, hnone] at hcount
  rw [hcount, ofText, List.length_filterMap_eq_countP]
  rfl

/-! ### A single line -/

/-- What is read of a line without a header before it. -/
theorem ofText_line (h : '\n' ∉ l) : ofText false l =
    if l.all isBlank then ⟨[], 0⟩
    else match Run.ofText? (trim l) with
      | some r => ⟨[r], 0⟩
      | none => ⟨[], 1⟩ := by
  unfold ofText candidates
  rw [lines_of_not_mem h]
  cases hblank : l.all isBlank with
  | true => simp [hblank, isEmpty_trim]
  | false => cases hr : Run.ofText? (trim l) <;> simp [hblank, hr, isEmpty_trim]

theorem ofText_header (h : '\n' ∉ l) : ofText true l = ⟨[], 0⟩ := by
  unfold ofText candidates
  rw [lines_of_not_mem h]
  rfl

theorem ofText_blank (h : '\n' ∉ l) (hblank : ∀ c ∈ l, isBlank c = true) :
    ofText false l = ⟨[], 0⟩ := by
  rw [ofText_line h, if_pos (List.all_eq_true.mpr hblank)]

/-- A text that is a run is not blank. -/
theorem ofText_run {r : Run Binary64} (h : '\n' ∉ l) (hr : Run.ofText? (trim l) = some r) :
    ofText false l = ⟨[r], 0⟩ := by
  have hnot : ¬ l.all isBlank = true := by
    intro hblank
    rw [← isEmpty_trim, List.isEmpty_iff] at hblank
    rw [hblank] at hr
    cases hr
  rw [ofText_line h, if_neg hnot, hr]

theorem ofText_malformed (h : '\n' ∉ l) (hblank : ∃ c ∈ l, isBlank c = false)
    (hr : Run.ofText? (trim l) = none) : ofText false l = ⟨[], 1⟩ := by
  have hnot : ¬ l.all isBlank = true := by simpa using hblank
  rw [ofText_line h, if_neg hnot, hr]

/-- No run is read of a line that is none, whether or not it is blank. -/
theorem runs_ofText_of_none (h : '\n' ∉ l) (hr : Run.ofText? (trim l) = none) :
    (ofText false l).runs = [] := by
  rw [ofText_line h, hr]
  split <;> rfl

/-- **A blank character at the end of the last line makes no difference.** -/
theorem ofText_concat_blank {c : Char} (hc : isBlank c = true) (hne : c ≠ '\n') (skipHeader : Bool)
    (text : List Char) : ofText skipHeader (text ++ [c]) = ofText skipHeader text := by
  have hline : ∀ skipHeader l, '\n' ∉ l → ofText skipHeader (l ++ [c]) = ofText skipHeader l := by
    intro skipHeader l h
    have h' : '\n' ∉ l ++ [c] := by simp [h, Ne.symm hne]
    cases skipHeader with
    | true => rw [ofText_header h, ofText_header h']
    | false =>
        rw [ofText_line h, ofText_line h', trim_concat_blank hc, List.all_append]
        simp [hc]
  rcases exists_lastLine text with h | ⟨a, l, rfl, h⟩
  · exact hline skipHeader text h
  · rw [List.append_assoc, List.cons_append, ofText_seam, ofText_seam, hline false l h]

/-! ### The reader -/

/-- A reader of texts goes line by line. -/
structure LineByLine (read : Bool → List Char → Ingested) : Prop where
  /-- What stands before a line feed and what stands behind it are read on their own, the latter
  without a header: the runs one after the other, and the counts added. -/
  seam : ∀ skipHeader a b,
    (read skipHeader (a ++ '\n' :: b)).runs = (read skipHeader a).runs ++ (read false b).runs ∧
      (read skipHeader (a ++ '\n' :: b)).skipped =
        (read skipHeader a).skipped + (read false b).skipped
  /-- Every line after the header that is not blank is read as a run or counted. -/
  counted : ∀ skipHeader text,
    (read skipHeader text).runs.length + (read skipHeader text).skipped =
      ((lines text).drop (if skipHeader then 1 else 0)).countP fun l => !l.all isBlank
  /-- A header is not read. -/
  header : ∀ l, '\n' ∉ l → read true l = ⟨[], 0⟩
  /-- A blank line is passed over. -/
  blank : ∀ l, '\n' ∉ l → (∀ c ∈ l, isBlank c = true) → read false l = ⟨[], 0⟩
  /-- A line with a run, blanks at its ends left aside, is read as this run. -/
  run : ∀ l r, '\n' ∉ l → Run.ofText? (trim l) = some r → read false l = ⟨[r], 0⟩
  /-- Any other line is counted. -/
  malformed : ∀ l, '\n' ∉ l → (∃ c ∈ l, isBlank c = false) → Run.ofText? (trim l) = none →
    read false l = ⟨[], 1⟩
  /-- Without a blank line after it a text is read the same. -/
  blankLine : ∀ skipHeader a l b, '\n' ∉ l → (∀ c ∈ l, isBlank c = true) →
    read skipHeader (a ++ '\n' :: l ++ '\n' :: b) = read skipHeader (a ++ '\n' :: b)
  /-- A line that is no run does not touch the runs of the lines around it. -/
  malformedLine : ∀ skipHeader a l b, '\n' ∉ l → Run.ofText? (trim l) = none →
    (read skipHeader (a ++ '\n' :: l ++ '\n' :: b)).runs =
      (read skipHeader (a ++ '\n' :: b)).runs
  /-- A carriage return before a line feed, or at the end of the text, makes no difference. -/
  carriageReturn : ∀ skipHeader a b,
    read skipHeader (a ++ '\r' :: '\n' :: b) = read skipHeader (a ++ '\n' :: b) ∧
      read skipHeader (a ++ ['\r']) = read skipHeader a

/-- **Runs are read line by line.** -/
theorem ofText_lineByLine : LineByLine ofText where
  seam skipHeader a b := by
    rw [ofText_seam]
    exact ⟨rfl, rfl⟩
  counted skipHeader text := by rw [runs_add_skipped, length_candidates]
  header _ h := ofText_header h
  blank _ h hblank := ofText_blank h hblank
  run _ _ h hr := ofText_run h hr
  malformed _ h hblank hr := ofText_malformed h hblank hr
  blankLine skipHeader a l b h hblank := by
    rw [ofText_seam, ofText_seam, ofText_seam, ofText_blank h hblank, append_nothing]
  malformedLine skipHeader a l b h hr := by
    have hruns := runs_ofText_of_none h hr
    rw [ofText_seam, ofText_seam, ofText_seam]
    simp [append_def, hruns]
  carriageReturn skipHeader a b := by
    have hend : ofText skipHeader (a ++ ['\r']) = ofText skipHeader a :=
      ofText_concat_blank (by decide) (by decide) skipHeader a
    refine ⟨?_, hend⟩
    rw [ofText_seam, ← hend, ← ofText_seam, List.append_assoc]
    rfl

/-- A header, a run, a line that is no run and one that is blank, with all line ends in use. -/
example :
    let run := "\x7b\"file_name\":\"a\",\"config_name\":\"b\",\"test_case_index\":0,"
      ++ "\"node_count\":1,\"loc\":1,\"duration_secs\":0.5\x7d"
    let text := "\x7b\x7d\r\n " ++ run ++ "\r\n\u2003\r\nnone\n\r\n" ++ run
    (ofText true text.toList).runs.length = 2 ∧ (ofText true text.toList).skipped = 1 := by
  decide +kernel

end Ingested

end RunCompare
