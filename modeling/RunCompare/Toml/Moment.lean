/-
Dates and times of TOML texts.

They are checked against the calendar and kept as written.
-/
import RunCompare.Decimal.Basic
import RunCompare.Text.Start
import RunCompare.Toml.Basic

namespace RunCompare.Toml

/-- A number of exactly so many digits between two bounds. -/
def readFixed (digits low high : Nat) (cs : List Char) : Option (Nat × List Char) :=
  let part := cs.take digits
  let n := Decimal.ofDigitChars part
  if part.length = digits && part.all Char.isDigit && low ≤ n && n ≤ high then
    some (n, cs.drop digits)
  else none

/-- The number of days of a month. -/
def daysOfMonth (year month : Nat) : Nat :=
  if month = 2 then
    if year % 4 = 0 ∧ (year % 100 ≠ 0 ∨ year % 400 = 0) then 29 else 28
  else if month = 4 ∨ month = 6 ∨ month = 9 ∨ month = 11 then 30
  else 31

/-- The rest after a date. -/
def afterDate (cs : List Char) : Option (List Char) := do
  let (year, rest) ← readFixed 4 0 9999 cs
  let (month, rest) ← readFixed 2 1 12 (← Text.afterChar '-' rest)
  let (_, rest) ← readFixed 2 1 (daysOfMonth year month) (← Text.afterChar '-' rest)
  return rest

/-- The rest after a time of day, with or without a fraction of a second. -/
def afterTime (cs : List Char) : Option (List Char) := do
  let (_, rest) ← readFixed 2 0 23 cs
  let (_, rest) ← readFixed 2 0 59 (← Text.afterChar ':' rest)
  let (_, rest) ← readFixed 2 0 60 (← Text.afterChar ':' rest)
  match rest with
  | '.' :: d :: tail =>
    if d.isDigit then return tail.dropWhile Char.isDigit else return rest
  | rest => return rest

/-- The rest after an offset from universal time. -/
def afterOffset (cs : List Char) : Option (List Char) :=
  match cs with
  | [] => none
  | c :: rest =>
    if c = 'Z' ∨ c = 'z' then some rest
    else if c = '+' ∨ c = '-' then do
      let (_, rest) ← readFixed 2 0 23 rest
      let (_, rest) ← readFixed 2 0 59 (← Text.afterChar ':' rest)
      return rest
    else none

/-- The rest after a date, a time of day, or both. -/
def afterMoment (cs : List Char) : Option (List Char) :=
  match afterDate cs with
  | none => afterTime cs
  | some rest =>
    match rest with
    | c :: tail =>
      if c = 'T' ∨ c = 't' ∨ c = ' ' then
        match afterTime tail with
        | none => some rest
        | some rest => some ((afterOffset rest).getD rest)
      else some rest
    | [] => some rest

/-- A date, a time of day, or both. -/
def readMoment (cs : List Char) : Option (Toml × List Char) :=
  (afterMoment cs).map fun rest =>
    (moment (String.ofList (cs.take (cs.length - rest.length))), rest)

end RunCompare.Toml
