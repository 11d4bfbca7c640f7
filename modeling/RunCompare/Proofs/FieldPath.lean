/-
Which texts write paths, and which paths.

A text is cut at its points.  It writes a path unless one of the pieces is empty,
and a piece is empty where the text begins with a point, ends with one, has two in
a row or has nothing at all (`ofText?_eq_none_iff`).  The pieces joined by points
are the text again, and no other path is written by it (`ofText?_eq_some_iff`).
-/
import RunCompare.FieldPath
import Mathlib.Data.List.Infix

namespace RunCompare

/-! ### The pieces of a list -/

section

variable {c : Char} {l : List Char}

/-- A list begins with a cut, ends with one, has two in a row, or has nothing to cut. -/
def HasGap (c : Char) (l : List Char) : Prop :=
  l = [] ∨ l.head? = some c ∨ l.getLast? = some c ∨ [c, c] <:+: l

theorem splitOn_cons_self (c : Char) (l : List Char) : (c :: l).splitOn c = [] :: l.splitOn c := by
  rw [List.splitOn_cons_eq_if_modifyHead, if_pos (beq_self_eq_true c)]

/-- A character that is not a cut makes the first piece longer. -/
theorem splitOn_cons_of_ne {d : Char} (hne : d ≠ c) : ∃ piece pieces,
    l.splitOn c = piece :: pieces ∧ (d :: l).splitOn c = (d :: piece) :: pieces := by
  obtain ⟨piece, pieces, hcut⟩ := List.exists_cons_of_ne_nil (List.splitOn_ne_nil c l)
  refine ⟨piece, pieces, hcut, ?_⟩
  rw [List.splitOn_cons_eq_if_modifyHead, if_neg (by simpa using hne), hcut, List.modifyHead_cons]

theorem not_mem_of_mem_splitOn {piece : List Char} (h : piece ∈ l.splitOn c) : c ∉ piece := by
  induction l generalizing piece with
  | nil =>
      rw [List.splitOn_nil, List.mem_singleton] at h
      simp [h]
  | cons d rest ih =>
      by_cases hd : d = c
      · rw [hd, splitOn_cons_self, List.mem_cons] at h
        rcases h with rfl | h
        · simp
        · exact ih h
      · obtain ⟨first, pieces, hcut, hcons⟩ := splitOn_cons_of_ne (l := rest) hd
        rw [hcons, List.mem_cons] at h
        rcases h with rfl | h
        · have hfirst : c ∉ first := ih (by simp [hcut])
          simp [Ne.symm hd, hfirst]
        · exact ih (by simp [hcut, h])

theorem infix_pair_cons {d : Char} :
    [c, c] <:+: d :: l ↔ d = c ∧ l.head? = some c ∨ [c, c] <:+: l := by
  rw [List.infix_cons_iff, List.cons_prefix_cons]
  refine or_congr_left (and_congr eq_comm ?_)
  cases l with
  | nil => simp
  | cons e rest => simp [List.cons_prefix_cons, eq_comm]

/-- The first piece is empty if nothing stands before the first cut. -/
theorem head?_splitOn_eq_nil_iff : (l.splitOn c).head? = some [] ↔ l = [] ∨ l.head? = some c := by
  cases l with
  | nil => simp [List.splitOn_nil]
  | cons d rest =>
      by_cases hd : d = c
      · simp [hd, splitOn_cons_self]
      · obtain ⟨first, pieces, -, hcons⟩ := splitOn_cons_of_ne (l := rest) hd
        simp [hcons, hd]

theorem nil_mem_splitOn_iff_head_or_tail :
    [] ∈ l.splitOn c ↔ (l.splitOn c).head? = some [] ∨ [] ∈ (l.splitOn c).tail := by
  obtain ⟨piece, pieces, hcut⟩ := List.exists_cons_of_ne_nil (List.splitOn_ne_nil c l)
  simp [hcut, eq_comm]

/-- A later piece is empty if nothing stands after the last cut or between two of them. -/
theorem nil_mem_tail_splitOn_iff :
    [] ∈ (l.splitOn c).tail ↔ l.getLast? = some c ∨ [c, c] <:+: l := by
  induction l with
  | nil => simp [List.splitOn_nil]
  | cons d rest ih =>
      by_cases hd : d = c
      · -- The later pieces are now all pieces of the rest.
        rw [hd, splitOn_cons_self, List.tail_cons, nil_mem_splitOn_iff_head_or_tail,
          head?_splitOn_eq_nil_iff, ih, infix_pair_cons]
        cases rest with
        | nil => simp
        | cons e rest =>
            rw [List.getLast?_cons_cons]
            simp
            tauto
      · obtain ⟨first, pieces, hcut, hcons⟩ := splitOn_cons_of_ne (l := rest) hd
        rw [hcut, List.tail_cons] at ih
        rw [hcons, List.tail_cons, ih, infix_pair_cons]
        cases rest with
        | nil => simp [hd]
        | cons e rest =>
            rw [List.getLast?_cons_cons]
            simp [hd]

/-- **A piece is empty exactly where there is a gap.** -/
theorem nil_mem_splitOn_iff : [] ∈ l.splitOn c ↔ HasGap c l := by
  rw [nil_mem_splitOn_iff_head_or_tail, head?_splitOn_eq_nil_iff, nil_mem_tail_splitOn_iff,
    or_assoc]
  rfl

end

/-- Undotted texts joined by points are the pieces of what they make. -/
theorem splitOn_intercalate_point {segments : List String} (hne : segments ≠ [])
    (h : ∀ s ∈ segments, '.' ∉ s.toList) :
    (".".intercalate segments).toList.splitOn '.' = segments.map String.toList := by
  rw [String.toList_intercalate]
  refine List.splitOn_intercalate '.' ?_ ?_
  · simpa using h
  · simpa using hne

namespace FieldPath

variable {text : String} {p : FieldPath}

/-- A segment of a path is not empty and has no point. -/
def IsSegment (s : String) : Prop := s ≠ "" ∧ '.' ∉ s.toList

/-- **A text writes no path exactly if it has a gap.** -/
theorem ofText?_eq_none_iff : ofText? text = none ↔ HasGap '.' text.toList := by
  rw [← nil_mem_splitOn_iff]
  simp [ofText?]

/-- **A text writes the path whose segments it joins by points.** -/
theorem ofText?_eq_some_iff : ofText? text = some p ↔
    p.segments ≠ [] ∧ (∀ s ∈ p.segments, IsSegment s) ∧ p.text = text := by
  constructor
  · intro h
    have hnil : [] ∉ text.toList.splitOn '.' := by
      rw [nil_mem_splitOn_iff, ← ofText?_eq_none_iff, h]
      exact Option.some_ne_none p
    have hp : p = ⟨(text.toList.splitOn '.').map String.ofList⟩ := by
      simpa [ofText?, hnil] using h.symm
    subst hp
    refine ⟨by simp, ?_, ?_⟩
    · intro s hs
      obtain ⟨piece, hpiece, rfl⟩ := List.mem_map.mp hs
      constructor
      · rw [Ne, String.ofList_eq_empty_iff]
        rintro rfl
        exact hnil hpiece
      · rw [String.toList_ofList]
        exact not_mem_of_mem_splitOn hpiece
    · refine String.toList_injective ?_
      have hpieces : ((text.toList.splitOn '.').map String.ofList).map String.toList =
          text.toList.splitOn '.' := by simp
      rw [FieldPath.text, String.toList_intercalate, hpieces]
      exact List.intercalate_splitOn '.'
  · rintro ⟨hne, hsegments, rfl⟩
    have hcut : p.text.toList.splitOn '.' = p.segments.map String.toList :=
      splitOn_intercalate_point hne fun s hs => (hsegments s hs).2
    have hempty : "" ∉ p.segments := fun h => (hsegments "" h).1 rfl
    simp [ofText?, hcut, hempty]

/-- A text that could be a segment writes the path of this segment. -/
theorem ofText?_of_isSegment (h : IsSegment text) : ofText? text = some ⟨[text]⟩ := by
  rw [ofText?_eq_some_iff]
  exact ⟨by simp, by simpa using h, String.intercalate_singleton⟩

end FieldPath

end RunCompare
