/-
Pivot tables over JSON values.

Each column is a labelled value, flattened to the paths of its leaves: the keys
on the way joined by points.  Arrays are neither entered nor reported, so that
per-file data never becomes a row; null is a leaf like any other.  The table
has a row for every path found in a column, in increasing order, and tells a
leaf that is null from a path that a column does not have.
-/
import RunCompare.Comparison.Json

namespace RunCompare

variable {α : Type}

/-- A cell of a pivot table. -/
inductive PivotCell (α : Type) where
  /-- The leaf of the column at the path of the row. -/
  | value (v : Json α)
  /-- The column has no leaf at the path of the row. -/
  | missing

/-- A row of a pivot table: a path, and a cell for each column. -/
structure PivotRow (α : Type) where
  name : String
  cells : List (PivotCell α)

/-- A pivot table: the labels of its columns, and its rows. -/
structure PivotTable (α : Type) where
  columns : List String
  rows : List (PivotRow α)

namespace PivotCell

/-- The leaf in a cell. -/
def value? : PivotCell α → Option (Json α)
  | value v => some v
  | missing => none

/-- The leaf in a cell as a number, if it is one. -/
def number? [Scalar α] (c : PivotCell α) : Option α := c.value?.bind Json.number?

/-- Whether the column has no leaf at the path of the row. -/
def isMissing : PivotCell α → Bool
  | value _ => false
  | missing => true

/-- The cell for a leaf that a column may have. -/
def ofOption : Option (Json α) → PivotCell α
  | some v => value v
  | none => missing

/-- The JSON value of a cell. -/
def toJson : PivotCell α → Json α
  | value v => .object [("kind", .str "value"), ("value", v)]
  | missing => .object [("kind", .str "missing")]

end PivotCell

namespace PivotTable

/-- Keys of a column that never become rows. -/
def excludedKeys : List String := ["names", "data"]

/-- The path of a leaf as the name of a row. -/
def rowName (path : List String) : String := ".".intercalate path

/-- The leaves of a column by the names of their rows. -/
def flatten : Json α → KeyMap (Json α)
  | .obj entries =>
    let reported := entries.filter fun e => !excludedKeys.contains e.1
    KeyMap.ofList ((Json.leavesOfEntries reported).map fun leaf => (rowName leaf.1, leaf.2))
  | _ => KeyMap.empty

/-- The names of the rows: every path of a column, in increasing order. -/
def rowNames (flattened : List (KeyMap (Json α))) : List String :=
  (KeyMap.ofList (flattened.flatMap fun m => m.keys.map (·, ()))).keys

/-- The table of labelled values. -/
def ofColumns (columns : List (String × Json α)) : PivotTable α :=
  let flattened := columns.map fun c => flatten c.2
  { columns := columns.map (·.1)
    rows := (rowNames flattened).map fun name =>
      ⟨name, flattened.map fun m => PivotCell.ofOption (m.get? name)⟩ }

/-- The table of comparisons, labelled by the names of their pairs. -/
def ofComparisons [Scalar α] (comparisons : List (Comparison α)) : PivotTable α :=
  ofColumns (comparisons.map fun c => (c.pair.label, c.toJson))

/-- The row with a name. -/
def row? (t : PivotTable α) (name : String) : Option (PivotRow α) :=
  t.rows.find? (·.name == name)

/-- The cell in the row with a name and the first column with a label. -/
def cell? (t : PivotTable α) (name column : String) : Option (PivotCell α) := do
  let index ← t.columns.idxOf? column
  (← t.row? name).cells[index]?

/-- Whether the table has no rows. -/
def isEmpty (t : PivotTable α) : Bool := t.rows.isEmpty

/-- The JSON value of a table. -/
def toJson (t : PivotTable α) : Json α :=
  .object
    [("columns", .arr (t.columns.map .str)),
      ("rows", .arr (t.rows.map fun r =>
        .object [("stat_name", .str r.name), ("cells", .arr (r.cells.map PivotCell.toJson))]))]

end PivotTable

end RunCompare
