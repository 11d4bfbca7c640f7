/-
The cells of the Markdown pivot table.

A bar ends a cell unless a backslash stands right before it.  Each line of the table
is read from its start with only the character before the next one in mind, and what
the writer puts around a cell, a blank on each side, makes it not matter what the
cells next to it end or start with: a line has a bar of its own for each cell and the
bars that are inside its cells (`separators_rowLine`).

The labels of the columns are escaped, so nothing is left inside the cells of the
header.  The names of the rows and the strings in the cells are written as they are.
A line of the table has more cells than the header exactly if one of these brings a
bar with it.
-/
import RunCompare.Proofs.Ingest
import RunCompare.Proofs.Json.Shape
import RunCompare.Proofs.Pivot
import RunCompare.Report.Markdown
import Mathlib.Algebra.GroupWithZero.Nat

namespace RunCompare

open Json PivotTable

/-! ### Lines of a text -/

/-- A text that stands on one line. -/
def IsLine (text : String) : Prop := '\n' ∉ text.toList

instance (text : String) : Decidable (IsLine text) :=
  inferInstanceAs (Decidable ('\n' ∉ text.toList))

/-- A text of lines is read as these lines and an empty one behind the last line feed. -/
theorem Text.lines_unlines {ls : List String} (h : ∀ l ∈ ls, IsLine l) :
    lines (unlines ls).toList = ls.map String.toList ++ [[]] := by
  induction ls with
  | nil => rfl
  | cons l rest ih =>
      obtain ⟨hfirst, hrest⟩ := List.forall_mem_cons.mp h
      have htext : (unlines (l :: rest)).toList = l.toList ++ '\n' :: (unlines rest).toList := by
        simp [unlines]
      rw [htext, lines_append_cons, lines_of_not_mem hfirst, ih hrest]
      rfl

theorem Text.unlines_append (ls ls' : List String) :
    unlines (ls ++ ls') = unlines ls ++ unlines ls' := by
  rw [unlines, unlines, unlines, List.map_append, String.join_append]

namespace Report.Markdown

/-! ### Bars that end a cell -/

/-- The number of bars without a backslash right before them; `previous` stands before the first
character. -/
def barsAfter (previous : Char) : List Char → Nat
  | [] => 0
  | c :: rest => (if c = '|' ∧ previous ≠ '\\' then 1 else 0) + barsAfter c rest

/-- The number of bars of a line that end a cell. -/
def separators (line : String) : Nat := barsAfter '\n' line.toList

section

variable {p q c : Char} {a b : List Char}

/-- Of what stands before a text only matters whether it is a backslash. -/
theorem barsAfter_of_ne (hp : p ≠ '\\') (hq : q ≠ '\\') (a : List Char) :
    barsAfter p a = barsAfter q a := by
  cases a with
  | nil => rfl
  | cons c rest => simp [barsAfter, hp, hq]

/-- A character that is no bar hides what stands before it. -/
theorem barsAfter_append_cons (hc : c ≠ '|') (p : Char) (a b : List Char) :
    barsAfter p (a ++ c :: b) = barsAfter p a + barsAfter c b := by
  induction a generalizing p with
  | nil => simp [barsAfter, hc]
  | cons d rest ih => rw [List.cons_append, barsAfter, barsAfter, ih, Nat.add_assoc]

theorem barsAfter_eq_zero (h : '|' ∉ a) (p : Char) : barsAfter p a = 0 := by
  induction a generalizing p with
  | nil => rfl
  | cons c rest ih =>
      obtain ⟨hc, hrest⟩ := not_or.mp (mt List.mem_cons.mpr h)
      rw [barsAfter, if_neg (fun hbar => hc hbar.1.symm), ih hrest]

/-- **An escaped text has no bar that ends a cell.** -/
theorem barsAfter_escape (p : Char) (text : String) : barsAfter p (escape text).toList = 0 := by
  rw [escape, String.toList_ofList]
  induction text.toList generalizing p with
  | nil => rfl
  | cons c rest ih =>
      rw [List.flatMap_cons]
      by_cases hc : c = '|'
      · simp [hc, barsAfter, ih]
      · simp [hc, barsAfter, ih]

theorem separators_escape (text : String) : separators (escape text) = 0 :=
  barsAfter_escape _ text

end

/-! ### Lines of a table -/

/-- A cell with the blanks around it and the bar behind it. -/
theorem barsAfter_cell (p : Char) (cell : String) (rest : List Char) :
    barsAfter p ((" " ++ cell ++ " |").toList ++ rest) =
      separators cell + 1 + barsAfter '|' rest := by
  have htext : (" " ++ cell ++ " |").toList ++ rest =
      [] ++ ' ' :: (cell.toList ++ ' ' :: '|' :: rest) := by
    simp
  rw [htext, barsAfter_append_cons (by decide), barsAfter_append_cons (by decide), separators,
    barsAfter_of_ne (by decide : ' ' ≠ '\\') (by decide : '\n' ≠ '\\') cell.toList, Nat.add_assoc]
  simp [barsAfter]

/-- **A row has a bar before its cells, one behind each of them, and those inside of them.** -/
theorem separators_rowLine (cells : List String) :
    separators (rowLine cells) = cells.length + 1 + (cells.map separators).sum := by
  have hcells : ∀ p, barsAfter p (String.join (cells.map fun c => " " ++ c ++ " |")).toList =
      cells.length + (cells.map separators).sum := by
    induction cells with
    | nil => intro p; rfl
    | cons cell rest ih =>
        intro p
        rw [List.map_cons, String.join_cons, String.toList_append, barsAfter_cell, ih,
          List.length_cons, List.map_cons, List.sum_cons]
        omega
  have htext : (rowLine cells).toList =
      '|' :: (String.join (cells.map fun c => " " ++ c ++ " |")).toList := by
    rw [rowLine, String.toList_append]
    rfl
  rw [separators, htext, barsAfter, hcells]
  simp
  omega

theorem separators_ruleLine (columns : Nat) : separators (ruleLine columns) = columns + 2 := by
  have hmarks : ∀ rest, barsAfter '|' ("------:|".toList ++ rest) = 1 + barsAfter '|' rest :=
    fun rest => by simp [barsAfter]
  have hcolumns : barsAfter '|' (String.join (List.replicate columns "------:|")).toList =
      columns := by
    induction columns with
    | zero => rfl
    | succ n ih =>
        rw [List.replicate_succ, String.join_cons, String.toList_append, hmarks, ih, Nat.add_comm]
  have hfirst : ∀ rest, barsAfter '\n' ("|-----------|".toList ++ rest) = 2 + barsAfter '|' rest :=
    fun rest => by simp [barsAfter, ← Nat.add_assoc]
  rw [separators, ruleLine, String.toList_append, hfirst, hcolumns, Nat.add_comm]

/-- A row stays on one line if its cells do. -/
theorem isLine_rowLine {cells : List String} (h : ∀ c ∈ cells, IsLine c) :
    IsLine (rowLine cells) := by
  simp only [IsLine, rowLine, String.toList_append, String.toList_join, List.mem_append,
    List.mem_flatMap, List.mem_map, not_or, not_exists, not_and]
  refine ⟨by decide, ?_⟩
  rintro _ ⟨c, hc, rfl⟩
  have hline : '\n' ∉ c.toList := h c hc
  simp [hline]

theorem isLine_ruleLine (columns : Nat) : IsLine (ruleLine columns) := by
  simp only [IsLine, ruleLine, String.toList_append, String.toList_join, List.mem_append,
    List.mem_flatMap, not_or, not_exists, not_and]
  refine ⟨by decide, fun text htext => ?_⟩
  rw [List.eq_of_mem_replicate htext]
  decide

theorem isLine_escape {text : String} (h : IsLine text) : IsLine (escape text) := by
  rw [IsLine, escape, String.toList_ofList, List.mem_flatMap]
  rintro ⟨c, hc, hmem⟩
  split at hmem
  · exact absurd hmem (by decide)
  · exact h (List.mem_singleton.mp hmem ▸ hc)

/-! ### Cells -/

/-- A character of a number that is written out. -/
theorem mem_fixed {places : Nat} {x : Binary64} {c : Char}
    (h : c ∈ (Decimal.fixed places x).toList) : c.isDigit = true ∨ c = '-' ∨ c = '.' := by
  have hdigit : ∀ k n, ∀ d ∈ List.replicate k '0' ++ Decimal.digitChars n, d.isDigit = true := by
    intro k n d hd
    rcases List.mem_append.mp hd with hd | hd
    · rw [List.eq_of_mem_replicate hd]
      decide
    · exact Nat.isDigit_of_mem_toDigits (by decide) (by decide) hd
  simp only [Decimal.fixed, Decimal.positional, String.toList_ofList, List.splitAt_eq,
    List.mem_append] at h
  rcases h with (hsign | hwhole) | hfraction
  · split at hsign
    · exact Or.inr (Or.inl (List.mem_singleton.mp hsign))
    · cases hsign
  · exact Or.inl (hdigit _ _ c (List.mem_of_mem_take hwhole))
  · split at hfraction
    · cases hfraction
    · rcases List.mem_cons.mp hfraction with hpoint | hfraction
      · exact Or.inr (Or.inr hpoint)
      · exact Or.inl (hdigit _ _ c (List.mem_of_mem_drop hfraction))

/-- Neither a bar nor a line feed is in a number. -/
theorem not_mem_numberText (x : Binary64) {c : Char} (hc : c = '|' ∨ c = '\n') :
    c ∉ (Report.numberText x).toList := by
  intro h
  rcases hc with rfl | rfl
  · exact absurd (mem_fixed h) (by decide)
  · exact absurd (mem_fixed h) (by decide)

/-- The bars that a cell brings with it: only a string is written as it is. -/
def cellBars : PivotCell Binary64 → Nat
  | .value (.str s) => separators s
  | _ => 0

/-- What stands in a cell is no container. -/
def IsLeafCell (cell : PivotCell Binary64) : Prop := ∀ v, cell = .value v → v.IsAtom

/-- Neither a bar nor a line feed is in a cell without a string. -/
theorem not_mem_cellText {cell : PivotCell Binary64} (h : IsLeafCell cell)
    (hfigure : ∀ s, cell ≠ .value (.str s)) {c : Char} (hc : c = '|' ∨ c = '\n') :
    c ∉ (cellText cell).toList := by
  cases cell with
  | missing => rcases hc with rfl | rfl <;> decide
  | value v =>
      obtain ⟨notObject, notArray⟩ := h v rfl
      cases v with
      | null => rcases hc with rfl | rfl <;> decide
      | bool b => rcases hc with rfl | rfl <;> cases b <;> decide
      | int i => exact not_mem_numberText _ hc
      | float x => exact not_mem_numberText x hc
      | str s => exact absurd rfl (hfigure s)
      | arr elements => exact absurd rfl (notArray elements)
      | obj entries => exact absurd rfl (notObject entries)

theorem separators_cellText {cell : PivotCell Binary64} (h : IsLeafCell cell) :
    separators (cellText cell) = cellBars cell := by
  by_cases hstring : ∃ s, cell = .value (.str s)
  · obtain ⟨s, rfl⟩ := hstring
    rfl
  · have hfigure : ∀ s, cell ≠ .value (.str s) := fun s hs => hstring ⟨s, hs⟩
    have hnone : cellBars cell = 0 := by
      unfold cellBars
      split
      · exact absurd rfl (hfigure _)
      · rfl
    rw [hnone, separators, barsAfter_eq_zero (not_mem_cellText h hfigure (Or.inl rfl))]

/-! ### Rows -/

section

variable {columns : List (String × Json Binary64)} {row : PivotRow Binary64}

/-- What is in a cell of a table is the leaf of a column at a path with the name of the row. -/
theorem reports_of_mem_cells (hrow : row ∈ (ofColumns columns).rows) {v : Json Binary64}
    (hv : .value v ∈ row.cells) :
    ∃ c ∈ columns, ∃ path, Reports c.2 path v ∧ rowName path = row.name := by
  obtain ⟨j, hj⟩ := List.mem_iff_getElem?.mp hv
  rw [getElem?_cells hrow, Option.map_eq_some_iff] at hj
  obtain ⟨c, hc, hcell⟩ := hj
  exact ⟨c, List.mem_of_getElem? hc,
    reports_of_get?_flatten (PivotCell.ofOption_eq_value.mp hcell)⟩

theorem isLeafCell_of_mem (hrow : row ∈ (ofColumns columns).rows) {cell : PivotCell Binary64}
    (hcell : cell ∈ row.cells) : IsLeafCell cell := by
  rintro v rfl
  obtain ⟨c, -, path, ⟨hleaf, -⟩, -⟩ := reports_of_mem_cells hrow hcell
  exact hleaf.isAtom

/-- **A row brings the bars of its name and of its strings with it.** -/
theorem separators_pivotRowLine (hrow : row ∈ (ofColumns columns).rows) :
    separators (pivotRowLine row) =
      columns.length + 2 + (separators row.name + (row.cells.map cellBars).sum) := by
  have hname : separators ("\x60" ++ row.name ++ "\x60") = separators row.name := by
    have htext : ("\x60" ++ row.name ++ "\x60").toList =
        [] ++ '\x60' :: (row.name.toList ++ '\x60' :: []) := by
      simp
    rw [separators, htext, barsAfter_append_cons (by decide), barsAfter_append_cons (by decide),
      separators, barsAfter_of_ne (by decide) (by decide : '\n' ≠ '\\') row.name.toList]
    simp [barsAfter]
  have hcells : (row.cells.map cellText).map separators = row.cells.map cellBars := by
    rw [List.map_map]
    exact List.map_congr_left fun cell hcell => separators_cellText (isLeafCell_of_mem hrow hcell)
  have hwidth : row.cells.length = columns.length := by
    obtain ⟨name, -, rfl⟩ := List.mem_map.mp hrow
    rw [List.length_map, List.length_map]
  rw [pivotRowLine, separators_rowLine, List.map_cons, List.sum_cons, hname, hcells,
    List.length_cons, List.length_map, hwidth]

/-- The label, the keys and the strings of a column each stand on one line. -/
structure OnOneLine (column : String × Json Binary64) : Prop where
  label : IsLine column.1
  keys : ∀ e ∈ column.2.leaves, ∀ k ∈ e.1, IsLine k
  strings : ∀ e ∈ column.2.leaves, ∀ s, e.2 = .str s → IsLine s

/-- The name of a path stands on one line if its keys do. -/
theorem isLine_rowName {path : List String} (h : ∀ k ∈ path, IsLine k) :
    IsLine (rowName path) := by
  rw [IsLine, rowName, String.toList_intercalate]
  induction path with
  | nil => simp
  | cons k rest ih =>
      obtain ⟨hk, hrest⟩ := List.forall_mem_cons.mp h
      cases rest with
      | nil => simpa using show '\n' ∉ k.toList from hk
      | cons k' rest =>
          rw [List.map_cons, List.map_cons, List.intercalate_cons_cons, ← List.map_cons]
          simp only [List.mem_append, not_or]
          exact ⟨⟨hk, by decide⟩, ih hrest⟩

theorem isLine_pivotRowLine (hlines : ∀ c ∈ columns, OnOneLine c)
    (hrow : row ∈ (ofColumns columns).rows) : IsLine (pivotRowLine row) := by
  refine isLine_rowLine (List.forall_mem_cons.mpr ⟨?_, fun text htext => ?_⟩)
  · have hname : row.name ∈ (ofColumns columns).rows.map (·.name) := List.mem_map_of_mem hrow
    rw [names_ofColumns, mem_rowNames] at hname
    obtain ⟨m, hm, leaf, hleaf⟩ := hname
    obtain ⟨c, hc, rfl⟩ := List.mem_map.mp hm
    obtain ⟨path, ⟨hat, -⟩, hpath⟩ := reports_of_get?_flatten hleaf
    have hkeys := isLine_rowName ((hlines c hc).keys _ ((mem_leaves _).mpr hat))
    rw [hpath, IsLine] at hkeys
    simp [IsLine, hkeys]
  · obtain ⟨cell, hcell, rfl⟩ := List.mem_map.mp htext
    by_cases hstring : ∃ s, cell = .value (.str s)
    · obtain ⟨s, rfl⟩ := hstring
      obtain ⟨c, hc, path, ⟨hat, -⟩, -⟩ := reports_of_mem_cells hrow hcell
      exact (hlines c hc).strings _ ((mem_leaves _).mpr hat) s rfl
    · exact not_mem_cellText (isLeafCell_of_mem hrow hcell) (fun s hs => hstring ⟨s, hs⟩)
        (Or.inr rfl)

/-- **The table stands on one line for each row, below the header and the rule.** -/
theorem isLine_pivotLines (hlines : ∀ c ∈ columns, OnOneLine c) :
    ∀ line ∈ pivotLines (ofColumns columns), IsLine line := by
  have hlabel : ∀ label ∈ (ofColumns columns).columns, IsLine label := by
    intro label hlabel
    obtain ⟨c, hc, rfl⟩ := List.mem_map.mp hlabel
    exact (hlines c hc).label
  unfold pivotLines
  split
  · intro line hline
    rw [List.mem_singleton.mp hline]
    decide
  · refine List.forall_mem_cons.mpr ⟨?_, List.forall_mem_cons.mpr ⟨isLine_ruleLine _, ?_⟩⟩
    · refine isLine_rowLine (List.forall_mem_cons.mpr ⟨by decide, fun text htext => ?_⟩)
      obtain ⟨label, hmem, rfl⟩ := List.mem_map.mp htext
      exact isLine_escape (hlabel label hmem)
    · intro line hline
      obtain ⟨row, hrow, rfl⟩ := List.mem_map.mp hline
      exact isLine_pivotRowLine hlines hrow

/-! ### The table in the report -/

/-- No row of a table brings a bar into it that ends a cell, by its name or by a string. -/
def BarFree (t : PivotTable Binary64) : Prop :=
  ∀ row ∈ t.rows, separators row.name = 0 ∧ ∀ s, .value (.str s) ∈ row.cells → separators s = 0

/-- What a reader of the Markdown report sees of the pivot table of columns. -/
structure CutIntoCells (columns : List (String × Json Binary64)) (r : Report Binary64) : Prop where
  /-- The report ends with the table. -/
  text : ∃ head, Markdown.text r = head ++ Text.unlines (pivotLines r.pivot)
  lines : Text.lines (Text.unlines (pivotLines r.pivot)).toList =
    (pivotLines r.pivot).map String.toList ++ [[]]
  /-- A header, a rule and the rows. -/
  parts : ∃ header, pivotLines r.pivot = header :: ruleLine columns.length ::
    r.pivot.rows.map pivotRowLine ∧ separators header = columns.length + 2
  rule : separators (ruleLine columns.length) = columns.length + 2
  row : ∀ row ∈ r.pivot.rows, separators (pivotRowLine row) =
    columns.length + 2 + (separators row.name + (row.cells.map cellBars).sum)
  /-- All lines have the bars of the header exactly if no row brings one with it. -/
  wellFormed_iff : (∀ line ∈ pivotLines r.pivot, separators line = columns.length + 2) ↔
    BarFree r.pivot

theorem cellBars_eq_zero_iff {cells : List (PivotCell Binary64)} :
    (cells.map cellBars).sum = 0 ↔ ∀ s, .value (.str s) ∈ cells → separators s = 0 := by
  rw [List.sum_eq_zero_iff_forall_eq_nat]
  simp only [List.mem_map, forall_exists_index, and_imp, forall_apply_eq_imp_iff₂]
  constructor
  · intro h s hs
    exact h _ hs
  · intro h cell hcell
    unfold cellBars
    split
    · exact h _ hcell
    · rfl

/--
**A line of the pivot table has the bars of the header, and those of its name and its strings.**

The table is well formed exactly if there are none of these.
-/
theorem pivotLines_cutIntoCells (columns : List (String × Json Binary64)) (r : Report Binary64)
    (hpivot : r.pivot = ofColumns columns) (hne : columns ≠ [])
    (hlines : ∀ c ∈ columns, OnOneLine c) : CutIntoCells columns r := by
  have hlabels : r.pivot.columns = columns.map (·.1) := by rw [hpivot]; rfl
  have hparts : pivotLines r.pivot = rowLine ("Statistic" :: r.pivot.columns.map escape) ::
      ruleLine columns.length :: r.pivot.rows.map pivotRowLine := by
    have hcolumns : ¬ r.pivot.columns.isEmpty = true := by
      rw [hlabels, List.isEmpty_iff, List.map_eq_nil_iff]
      exact hne
    rw [pivotLines, if_neg hcolumns, hlabels, List.length_map]
  have hheader : separators (rowLine ("Statistic" :: r.pivot.columns.map escape)) =
      columns.length + 2 := by
    have hescaped : (r.pivot.columns.map escape).map separators =
        List.replicate columns.length 0 := by
      rw [hlabels, List.map_map, List.map_map]
      refine List.eq_replicate_iff.mpr ⟨List.length_map .., fun n hn => ?_⟩
      obtain ⟨c, -, rfl⟩ := List.mem_map.mp hn
      rw [Function.comp_apply, Function.comp_apply, separators_escape]
    rw [separators_rowLine, List.map_cons, hescaped, hlabels]
    simp [separators, barsAfter]
  have hrow : ∀ row ∈ r.pivot.rows, separators (pivotRowLine row) =
      columns.length + 2 + (separators row.name + (row.cells.map cellBars).sum) := by
    rw [hpivot]
    exact fun row => separators_pivotRowLine
  refine ⟨?_, ?_, ⟨_, hparts, hheader⟩, separators_ruleLine _, hrow, ?_⟩
  · exact ⟨_, Text.unlines_append _ _⟩
  · rw [hpivot]
    exact Text.lines_unlines (isLine_pivotLines hlines)
  · rw [hparts, List.forall_mem_cons, List.forall_mem_cons, List.forall_mem_map]
    rw [and_iff_right hheader, and_iff_right (separators_ruleLine _), BarFree]
    refine forall₂_congr fun row hmem => ?_
    rw [hrow row hmem, Nat.add_eq_left, Nat.add_eq_zero_iff, cellBars_eq_zero_iff]

end

/-- A column with a bar in its label, one in a key and one in a string. -/
def barredColumns : List (String × Json Binary64) := [("A|B vs C", .obj [("a|b", .str "x|y")])]

/-- A report with the pivot table of these columns. -/
def barredReport : Report Binary64 where
  name := "R"
  generatedAt := "T"
  runCount := 0
  groups := []
  comparisons := []
  pivot := ofColumns barredColumns

theorem onOneLine_barredColumns : ∀ c ∈ barredColumns, OnOneLine c := by
  have hleaves : ∀ c ∈ barredColumns, c.2.leaves = [(["a|b"], .str "x|y")] := by
    simp [barredColumns, leaves, leavesOfEntries]
  intro c hc
  refine ⟨?_, ?_, ?_⟩
  · rw [List.mem_singleton.mp hc]
    decide
  · rw [hleaves c hc]
    decide
  · rw [hleaves c hc]
    rintro e he s hs
    rw [List.mem_singleton.mp he] at hs
    cases hs
    decide

theorem pivotLines_cutIntoCells_barredColumns :
    barredReport.pivot = ofColumns barredColumns ∧ barredColumns ≠ [] ∧
      (∀ c ∈ barredColumns, OnOneLine c) ∧ CutIntoCells barredColumns barredReport := by
  have hne : barredColumns ≠ [] := List.cons_ne_nil _ _
  exact ⟨rfl, hne, onOneLine_barredColumns,
    pivotLines_cutIntoCells barredColumns barredReport rfl hne onOneLine_barredColumns⟩

/-- **A row can have more cells than the header**: the bars of the label are escaped, those of the
name and of the string are not. -/
theorem separators_barredReport :
    barredColumns ≠ [] ∧ (∀ c ∈ barredColumns, OnOneLine c) ∧
      (pivotLines barredReport.pivot).map separators = [3, 3, 5] := by
  exact ⟨List.cons_ne_nil _ _, onOneLine_barredColumns, by decide +kernel⟩

end Report.Markdown

end RunCompare
