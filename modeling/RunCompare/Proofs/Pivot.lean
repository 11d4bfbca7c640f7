/-
What a pivot table holds.

A column reports the leaves of its value, those below the excluded keys apart
(`Reports`).  Flattening a column is a map from the texts of their paths to the
leaves (`get?_flatten`), and `LaysOut` is what this makes of the table: a row
for every path that some column reports, and in each row for each column the
leaf, or the mark that it has none.

Two paths with one text would overwrite each other.  This is excluded by the
keys: no point inside a key, and no key twice in an object.
-/
import RunCompare.Binary64.Scalar
import RunCompare.Proofs.Json.Canonical
import Mathlib.Data.Set.Function

namespace RunCompare

open Json PivotTable

variable {α : Type}

/-- A column reports a leaf: it lies below a key of the column's object that is not excluded. -/
def Reports (v : Json α) (path : List String) (leaf : Json α) : Prop :=
  LeafAt v path leaf ∧ ∃ k rest, path = k :: rest ∧ k ∉ excludedKeys

/-- A table lays out columns: a row for each reported path, and in it the leaf of each column. -/
structure LaysOut (columns : List (String × Json α)) (table : PivotTable α) : Prop where
  /-- The columns are the labels, in order. -/
  labels : table.columns = columns.map (·.1)
  /-- No row is repeated. -/
  increasing : (table.rows.map (·.name)).Pairwise (· < ·)
  /-- The rows are the paths that a column reports. -/
  rows : ∀ name, name ∈ table.rows.map (·.name) ↔
    ∃ c ∈ columns, ∃ path leaf, Reports c.2 path leaf ∧ rowName path = name
  /-- Every row has a cell for each column. -/
  width : ∀ row ∈ table.rows, row.cells.length = columns.length
  /-- The cell of a column in the row of a path holds the leaf that it has there, if any. -/
  cells : ∀ row ∈ table.rows, ∀ c' ∈ columns, ∀ path leaf', Reports c'.2 path leaf' →
    rowName path = row.name → ∀ (j : Nat) (c : String × Json α), columns[j]? = some c →
      ∃ cell, row.cells[j]? = some cell ∧ (∀ leaf, cell = .value leaf ↔ Reports c.2 path leaf) ∧
        (cell = .missing ↔ ∀ leaf, ¬ Reports c.2 path leaf)
  /-- The cells of a column that are not missing are its leaves, each of them once. -/
  leaves : ∀ (j : Nat) (c : String × Json α), columns[j]? = some c →
    Set.BijOn (fun found : List String × Json α => (rowName found.1, found.2))
      {found | Reports c.2 found.1 found.2}
      {cell | ∃ row ∈ table.rows, row.name = cell.1 ∧ row.cells[j]? = some (.value cell.2)}

/-! ### One column -/

theorem mem_reported {entries : List (String × Json α)} {path : List String} {leaf : Json α} :
    (path, leaf) ∈ leavesOfEntries (entries.filter fun e => !excludedKeys.contains e.1) ↔
      Reports (.obj entries) path leaf := by
  rw [mem_leavesOfEntries, Reports, leafAt_obj]
  constructor
  · rintro ⟨k, v, rest, rfl, hentry, hrest⟩
    obtain ⟨hentry, hkey⟩ := List.mem_filter.mp hentry
    exact ⟨⟨k, v, rest, rfl, hentry, hrest⟩, k, rest, rfl, by simpa using hkey⟩
  · rintro ⟨⟨k, v, rest, rfl, hentry, hrest⟩, k', rest', hpath, hkey⟩
    cases hpath
    exact ⟨k, v, rest, rfl, List.mem_filter.mpr ⟨hentry, by simpa using hkey⟩, hrest⟩

section

variable {v : Json α} {path path' : List String} {leaf leaf' : Json α}

theorem Reports.ne_nil (h : Reports v path leaf) : path ≠ [] := by
  obtain ⟨-, k, rest, rfl, -⟩ := h
  exact List.cons_ne_nil k rest

/-- Two columns report paths with one text only if the paths are equal. -/
theorem Reports.path_eq {v' : Json α} (hv : v.Undotted) (hv' : v'.Undotted)
    (h : Reports v path leaf) (h' : Reports v' path' leaf')
    (heq : rowName path = rowName path') : path = path' :=
  rowName_injective h.ne_nil h'.ne_nil (h.1.undotted hv) (h'.1.undotted hv') heq

/-- What a flattened column has under a text is reported at a path with this text. -/
theorem reports_of_get?_flatten {name : String} (h : (flatten v).get? name = some leaf) :
    ∃ path, Reports v path leaf ∧ rowName path = name := by
  cases v with
  | obj entries =>
      obtain ⟨⟨path, leaf'⟩, hmem, heq⟩ := List.mem_map.mp (KeyMap.mem_of_get?_ofList h)
      cases heq
      exact ⟨path, mem_reported.mp hmem, rfl⟩
  | null | bool _ | int _ | float _ | str _ | arr _ => cases h

/-- **A flattened column has a leaf under a text exactly if the column reports it at a path with
this text.** -/
theorem get?_flatten (hdistinct : v.DistinctKeys) (hundotted : v.Undotted) {name : String} :
    (flatten v).get? name = some leaf ↔ ∃ path, Reports v path leaf ∧ rowName path = name := by
  refine ⟨reports_of_get?_flatten, ?_⟩
  rintro ⟨path, hreports, rfl⟩
  obtain ⟨hleaf, k, rest, rfl, hkey⟩ := hreports
  cases hleaf with
  | @inside entries _ _ _ _ entry below =>
      have hreports : Reports (.obj entries) (k :: rest) leaf :=
        ⟨.inside entry below, k, rest, rfl, hkey⟩
      unfold flatten
      have hname : rowName (k :: rest) ∈ ((leavesOfEntries (entries.filter fun e =>
          !excludedKeys.contains e.1)).map fun leaf => (rowName leaf.1, leaf.2)).map (·.1) := by
        rw [List.map_map]
        exact List.mem_map.mpr ⟨(k :: rest, leaf), mem_reported.mpr hreports, rfl⟩
      obtain ⟨found, hfound⟩ := Option.isSome_iff_exists.mp (KeyMap.contains_ofList.mpr hname)
      -- Whatever is found under the text is the leaf of a path with the same text.
      obtain ⟨path', hreports', htext⟩ := reports_of_get?_flatten (v := .obj entries) hfound
      have hpath : path' = k :: rest :=
        hreports'.path_eq hundotted hundotted hreports htext
      have hvalue : found = leaf := by
        rw [hpath] at hreports'
        exact hreports'.1.unique hdistinct hreports.1
      rw [← hvalue]
      exact hfound

/-- Under the text of a path that any column reports, a column has its own leaf at this path. -/
theorem get?_flatten_rowName {v' : Json α} (hdistinct : v.DistinctKeys) (hundotted : v.Undotted)
    (hundotted' : v'.Undotted) (h' : Reports v' path leaf') :
    (flatten v).get? (rowName path) = some leaf ↔ Reports v path leaf := by
  rw [get?_flatten hdistinct hundotted]
  constructor
  · rintro ⟨path', hreports, hname⟩
    have hpath : path' = path := hreports.path_eq hundotted hundotted' h' hname
    rw [hpath] at hreports
    exact hreports
  · intro hreports
    exact ⟨path, hreports, rfl⟩

end

/-! ### The table -/

section

variable {columns : List (String × Json α)}

theorem names_ofColumns (columns : List (String × Json α)) :
    (ofColumns columns).rows.map (·.name) = rowNames (columns.map fun c => flatten c.2) := by
  unfold ofColumns
  rw [List.map_map]
  exact List.map_id _

/-- A row is named like a key of a flattened column. -/
theorem mem_rowNames {flattened : List (KeyMap (Json α))} {name : String} :
    name ∈ rowNames flattened ↔ ∃ m ∈ flattened, ∃ leaf, m.get? name = some leaf := by
  unfold rowNames
  rw [KeyMap.mem_keys, KeyMap.contains_ofList, List.map_flatMap, List.mem_flatMap]
  refine exists_congr fun m => and_congr_right fun _ => ?_
  rw [List.map_map, ← Option.isSome_iff_exists]
  show name ∈ m.keys.map id ↔ m.contains name = true
  rw [List.map_id, KeyMap.mem_keys]

theorem getElem?_cells {row : PivotRow α} (hrow : row ∈ (ofColumns columns).rows) (j : Nat) :
    row.cells[j]? = columns[j]?.map fun c => PivotCell.ofOption ((flatten c.2).get? row.name) := by
  obtain ⟨name, -, rfl⟩ := List.mem_map.mp hrow
  rw [List.getElem?_map, List.getElem?_map, Option.map_map]
  rfl

theorem PivotCell.ofOption_eq_value {found : Option (Json α)} {leaf : Json α} :
    PivotCell.ofOption found = .value leaf ↔ found = some leaf := by
  cases found with
  | none => exact ⟨fun h => (nomatch h), fun h => (nomatch h)⟩
  | some v => simp [PivotCell.ofOption]

theorem PivotCell.ofOption_eq_missing {found : Option (Json α)} :
    PivotCell.ofOption found = .missing ↔ found = none := by
  cases found with
  | none => exact ⟨fun _ => rfl, fun _ => rfl⟩
  | some v => exact ⟨fun h => (nomatch h), fun h => (nomatch h)⟩

section

variable (hdistinct : ∀ c ∈ columns, c.2.DistinctKeys) (hundotted : ∀ c ∈ columns, c.2.Undotted)
include hdistinct hundotted

/-- The rows are the paths that a column reports. -/
theorem mem_names_ofColumns {name : String} : name ∈ (ofColumns columns).rows.map (·.name) ↔
    ∃ c ∈ columns, ∃ path leaf, Reports c.2 path leaf ∧ rowName path = name := by
  rw [names_ofColumns, mem_rowNames]
  constructor
  · rintro ⟨m, hm, leaf, hleaf⟩
    obtain ⟨c, hc, rfl⟩ := List.mem_map.mp hm
    obtain ⟨path, hpath⟩ := (get?_flatten (hdistinct c hc) (hundotted c hc)).mp hleaf
    exact ⟨c, hc, path, leaf, hpath⟩
  · rintro ⟨c, hc, path, leaf, hpath⟩
    refine ⟨_, List.mem_map.mpr ⟨c, hc, rfl⟩, leaf, ?_⟩
    exact (get?_flatten (hdistinct c hc) (hundotted c hc)).mpr ⟨path, hpath⟩

/-- The cells of a column that are not missing are its leaves, each of them once. -/
theorem bijOn_cells {j : Nat} {c : String × Json α} (hj : columns[j]? = some c) :
    Set.BijOn (fun found : List String × Json α => (rowName found.1, found.2))
      {found | Reports c.2 found.1 found.2}
      {cell | ∃ row ∈ (ofColumns columns).rows, row.name = cell.1 ∧
        row.cells[j]? = some (.value cell.2)} := by
  have hc : c ∈ columns := List.mem_of_getElem? hj
  have hcell : ∀ row ∈ (ofColumns columns).rows, ∀ leaf, row.cells[j]? = some (.value leaf) ↔
      ∃ path, Reports c.2 path leaf ∧ rowName path = row.name := by
    intro row hrow leaf
    rw [getElem?_cells hrow, hj, Option.map_some, Option.some.injEq, PivotCell.ofOption_eq_value]
    exact get?_flatten (hdistinct c hc) (hundotted c hc)
  refine ⟨?_, ?_, ?_⟩
  · rintro ⟨path, leaf⟩ hreports
    obtain ⟨row, hrow, hname⟩ := List.mem_map.mp
      ((mem_names_ofColumns hdistinct hundotted).mpr ⟨c, hc, path, leaf, hreports, rfl⟩)
    exact ⟨row, hrow, hname, (hcell row hrow leaf).mpr ⟨path, hreports, hname.symm⟩⟩
  · rintro ⟨path, leaf⟩ hreports ⟨path', leaf'⟩ hreports' heq
    have hpath : path = path' := Reports.path_eq (hundotted c hc) (hundotted c hc) hreports
      hreports' (congrArg Prod.fst heq)
    have hleaf : leaf = leaf' := congrArg Prod.snd heq
    exact Prod.ext hpath hleaf
  · rintro ⟨name, leaf⟩ ⟨row, hrow, hname, hvalue⟩
    obtain ⟨path, hreports, hpath⟩ := (hcell row hrow leaf).mp hvalue
    exact ⟨(path, leaf), hreports, Prod.ext (hpath.trans hname) rfl⟩

end

/--
**A pivot table has a row for each path of a leaf, and in it the leaf of each column.**

The columns are JSON values, so no object has a key twice; the keys contain no point.
-/
theorem ofColumns_laysOut (hdistinct : ∀ c ∈ columns, c.2.DistinctKeys)
    (hundotted : ∀ c ∈ columns, c.2.Undotted) : LaysOut columns (ofColumns columns) where
  labels := rfl
  increasing := by
    rw [names_ofColumns]
    exact KeyMap.increasing_keys _
  rows _ := mem_names_ofColumns hdistinct hundotted
  width row hrow := by
    obtain ⟨name, -, rfl⟩ := List.mem_map.mp hrow
    simp
  cells row hrow c' hc' path leaf' hreports' hname j c hj := by
    have hc : c ∈ columns := List.mem_of_getElem? hj
    have hleaf : ∀ leaf, (flatten c.2).get? row.name = some leaf ↔ Reports c.2 path leaf := by
      intro leaf
      rw [← hname]
      exact get?_flatten_rowName (hdistinct c hc) (hundotted c hc) (hundotted c' hc') hreports'
    refine ⟨_, by rw [getElem?_cells hrow, hj]; rfl, fun leaf => ?_, ?_⟩
    · rw [PivotCell.ofOption_eq_value, hleaf]
    · rw [PivotCell.ofOption_eq_missing, Option.eq_none_iff_forall_ne_some]
      exact forall_congr' fun leaf => not_congr (hleaf leaf)
  leaves _ _ hj := bijOn_cells hdistinct hundotted hj

end

/-- Columns with a key inside that is excluded at the top only, a leaf that is null, a value that
is no object, a key that is repeated, an object without leaves, and a label given twice. -/
def writtenColumns : List (String × Json Binary64) :=
  [("Old vs New", .obj [("size", .obj [("mean", .null), ("names", .int 2)]),
      ("names", .arr [.str "Old"]), ("data", .obj [("kept", .null)])]),
    ("list", .arr [.null]),
    ("Old vs New", .obj [("size", .obj [("mean", .int 3), ("mean", .int 4)]), ("none", .obj []),
      ("on", .bool true)])]

/-- The values of these columns. -/
def valueColumns : List (String × Json Binary64) :=
  writtenColumns.map fun c => (c.1, c.2.canonical)

theorem ofColumns_valueColumns :
    (∀ c ∈ valueColumns, c.2.DistinctKeys) ∧ (∀ c ∈ valueColumns, c.2.Undotted) ∧
      LaysOut valueColumns (ofColumns valueColumns) ∧
      (ofColumns valueColumns).rows.map (·.name) = ["on", "size.mean", "size.names"] := by
  have hdistinct : ∀ c ∈ valueColumns, c.2.DistinctKeys := by
    intro c hc
    obtain ⟨written, -, rfl⟩ := List.mem_map.mp hc
    exact canonical_distinctKeys written.2
  have hwritten : ∀ c ∈ writtenColumns, c.2.Undotted := by
    simp [writtenColumns, Undotted, everyObject_obj, EveryObject.leaf]
  have hundotted : ∀ c ∈ valueColumns, c.2.Undotted := by
    intro c hc
    obtain ⟨written, hmem, rfl⟩ := List.mem_map.mp hc
    exact (hwritten written hmem).canonical
  exact ⟨hdistinct, hundotted, ofColumns_laysOut hdistinct hundotted, by decide⟩

end RunCompare
