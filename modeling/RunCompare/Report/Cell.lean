/-
Numbers and cells of the reports that are texts.

A whole number below `10 ^ 15` has no decimal places, any other number below one
has four, and the rest have two.  What is absent, undefined or missing is a
dash.
-/
import RunCompare.Decimal.Fixed
import RunCompare.Json.Writer
import RunCompare.Pivot

namespace RunCompare.Report

/-- Whole numbers from here on have decimal places: `10 ^ 15`. -/
def wholeBound : Nat := 1000000000000000

/-- Stands for a statistic that is absent or undefined. -/
def missingMark : String := "—"

/-- The number of decimal places of a finite number. -/
def places (x : Binary64) : Nat :=
  if x.isIntegral && x.abs < Binary64.ofNat wholeBound then 0
  else if x.abs < Binary64.ofNat 1 then 4
  else 2

/-- The text of a finite number. -/
def numberText (x : Binary64) : String := Decimal.fixed (places x) x

/-- The text of a statistic that may be absent or undefined. -/
def statisticText : Option Binary64 → String
  | some x => if x.isFinite then numberText x else missingMark
  | none => missingMark

/-- The text of a cell of the pivot table. -/
def cellText : PivotCell Binary64 → String
  | .missing => missingMark
  | .value .null => missingMark
  | .value (.str s) => s
  | .value v =>
    match v.number? with
    | some x => numberText x
    | none => v.compact

/-- A text filled up with blanks on its right to a width. -/
def padRight (width : Nat) (text : String) : String :=
  text ++ String.ofList (List.replicate (width - text.length) ' ')

/-- A text filled up with blanks on its left to a width. -/
def padLeft (width : Nat) (text : String) : String :=
  String.ofList (List.replicate (width - text.length) ' ') ++ text

end RunCompare.Report
