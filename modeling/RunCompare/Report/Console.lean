/-
The report for a terminal: the speedups of each comparison in a small box, and
the pivot table in columns.
-/
import RunCompare.Analysis
import RunCompare.Report.Cell
import RunCompare.Text.Line

namespace RunCompare.Report.Console

/-- The line above and below a heading. -/
def ruleLine : String := String.ofList (List.replicate 64 '─')

/-- A heading between two rules. -/
def heading (title : String) : List String := [ruleLine, title, ruleLine]

/-- The head of the report. -/
def headLines (r : Report Binary64) : List String :=
  let bar := String.ofList (List.replicate 62 '═')
  ["", "╔" ++ bar ++ "╗",
    "║                    BENCHMARK ANALYSIS                        ║",
    "╚" ++ bar ++ "╝", "",
    "Analysis:     " ++ r.name,
    "Generated:    " ++ r.generatedAt,
    "Raw records:  " ++ toString r.runCount,
    "Groups:       " ++ toString r.groups.length,
    ""]

/-- The box with the mean and the quartiles of the speedups. -/
def speedupBox (s : Stats.Summary Binary64) : List String :=
  let cell (x : Option Binary64) := padLeft 8 (statisticText x)
  ["  ┌──────────┬──────────┬──────────┬──────────┬──────────┐",
    "  │ Speedup  │   Mean   │    Q1    │  Median  │    Q3    │",
    "  ├──────────┼──────────┼──────────┼──────────┼──────────┤",
    "  │ " ++ " │ ".intercalate [padLeft 8 "", cell s.mean, cell s.q1, cell s.median, cell s.q3]
      ++ " │",
    "  └──────────┴──────────┴──────────┴──────────┴──────────┘"]

/-- How often each side was the faster one. -/
def fasterLine (pair : ConfigPair) (s : SpeedupStats Binary64) : String :=
  let part (name : String) (n : Nat) :=
    name ++ " on " ++ toString n ++ " files (" ++ statisticText (s.share n) ++ ")"
  "  Faster: " ++ part pair.first s.firstBetter ++ ", " ++ part pair.second s.secondBetter

/-- The line of the speedups over the lines of code. -/
def regressionLine (r : Stats.Regression Binary64) : String :=
  "  Speedup vs LOC: slope " ++ statisticText (r.fit.map (·.slope))
    ++ ", intercept " ++ statisticText (r.fit.map (·.intercept))
    ++ ", R² " ++ statisticText (r.fit.bind (·.explained))

/-- The level at which a difference is significant, the stronger one first. -/
def significanceMark (m : MetricComparison Binary64) : String :=
  if m.test.isNone then ""
  else if m.significant001 then " (p < 0.01)"
  else if m.significant005 then " (p < 0.05)"
  else ""

/-- The outcome of the rank test on the durations. -/
def durationTestLine (m : MetricComparison Binary64) : String :=
  "  Duration Mann-Whitney p-value: " ++ statisticText (m.test.map (·.p)) ++ significanceMark m

/-- The part of the report on a comparison. -/
def comparisonLines (c : Comparison Binary64) : List String :=
  heading ("Comparison: " ++ c.pair.label) ++
    if c.hasData then
      ["  Paired files: " ++ toString c.speedupStats.summary.count ++ " ("
          ++ toString c.speedupStats.undefined ++ " undefined speedups)", ""]
        ++ speedupBox c.speedupStats.summary
        ++ ["", fasterLine c.pair c.speedupStats, regressionLine c.regression]
        ++ ((c.metrics.get? "duration").map durationTestLine).toList
        ++ [""]
    else ["  No data for at least one configuration", ""]

/-- A line of the pivot table, its first column filled up to a width. -/
def pivotLine (width : Nat) (name : String) (cells : List String) : String :=
  "  " ++ padRight width name ++ String.join (cells.map fun c => " │ " ++ padLeft 10 c)

/-- The pivot table, with numbers for the labels of its columns. -/
def pivotLines (t : PivotTable Binary64) : List String :=
  let width := (t.rows.map fun r => r.name.length).foldl max 0
  let marks := (List.range t.columns.length).map fun i => "[" ++ toString (i + 1) ++ "]"
  heading "Pivot table"
    ++ List.zipWith (fun mark label => "  " ++ mark ++ " " ++ label) marks t.columns
    ++ ["", pivotLine width "Statistic" marks]
    ++ t.rows.map fun r => pivotLine width r.name (r.cells.map cellText)

/-- The lines of the report. -/
def reportLines (r : Report Binary64) : List String :=
  headLines r ++ r.comparisons.flatMap comparisonLines ++ pivotLines r.pivot ++ [""]

/-- The text of the report. -/
def text (r : Report Binary64) : String := Text.unlines (reportLines r)

end RunCompare.Report.Console
