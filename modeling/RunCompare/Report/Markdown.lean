/-
The report in Markdown: a table of speedups for each comparison, and the pivot
table.
-/
import RunCompare.Analysis
import RunCompare.Report.Cell
import RunCompare.Text.Line

namespace RunCompare.Report.Markdown

/-- A text whose bars do not end a cell. -/
def escape (text : String) : String :=
  String.ofList (text.toList.flatMap fun c => if c = '|' then ['\\', '|'] else [c])

/-- A row of a table. -/
def rowLine (cells : List String) : String :=
  "|" ++ String.join (cells.map fun c => " " ++ c ++ " |")

/-- The rule below the header of a table with so many columns of numbers. -/
def ruleLine (columns : Nat) : String :=
  "|-----------|" ++ String.join (List.replicate columns "------:|")

/-- The named statistics in the table of a comparison. -/
def speedupRows (c : Comparison Binary64) : List (String × Option Binary64) :=
  [("Mean", c.speedupStats.summary.mean), ("Median", c.speedupStats.summary.median),
    ("Q1", c.speedupStats.summary.q1), ("Q3", c.speedupStats.summary.q3),
    ("Slope", c.regression.fit.map (·.slope)), ("Intercept", c.regression.fit.map (·.intercept)),
    ("R²", c.regression.fit.bind (·.explained))]

/-- The table of a comparison. -/
def comparisonLines (c : Comparison Binary64) : List String :=
  rowLine ["Statistic", escape c.pair.first ++ " vs. " ++ escape c.pair.second]
    :: ruleLine 1
    :: (speedupRows c).map (fun row => rowLine [row.1, statisticText row.2])
    ++ [""]

/-- The row of the pivot table for a path. -/
def pivotRowLine (r : PivotRow Binary64) : String :=
  rowLine (("\x60" ++ r.name ++ "\x60") :: r.cells.map cellText)

/-- The pivot table. -/
def pivotLines (t : PivotTable Binary64) : List String :=
  if t.columns.isEmpty then ["_No comparisons configured._"]
  else rowLine ("Statistic" :: t.columns.map escape) :: ruleLine t.columns.length
    :: t.rows.map pivotRowLine

/-- The lines of the report. -/
def reportLines (r : Report Binary64) : List String :=
  ["# " ++ r.name, "",
    "Generated " ++ r.generatedAt ++ " from " ++ toString r.runCount ++ " raw records in "
      ++ toString r.groups.length ++ " groups.",
    "", "## Speedup", ""]
    ++ r.comparisons.flatMap comparisonLines
    ++ ["## Pivot table", ""]
    ++ pivotLines r.pivot

/-- The text of the report. -/
def text (r : Report Binary64) : String := Text.unlines (reportLines r)

end RunCompare.Report.Markdown
