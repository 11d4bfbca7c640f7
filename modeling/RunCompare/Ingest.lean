/-
Reading runs from a text with one run a line.

Blank lines are passed over.  A line that is no run is counted and does not
touch any other line.
-/
import RunCompare.Run.Basic
import RunCompare.Text.Blank
import RunCompare.Text.Line

namespace RunCompare

/-- The runs of a text, and the number of its lines that are none. -/
structure Ingested where
  runs : List (Run Binary64)
  skipped : Nat

namespace Ingested

/-- The lines of a text that should be runs: all but the header, trimmed, blank ones left out. -/
def candidates (skipHeader : Bool) (text : List Char) : List (List Char) :=
  (((Text.lines text).drop (if skipHeader then 1 else 0)).map Text.trim).filter (!·.isEmpty)

/-- Reads the runs of a text. -/
def ofText (skipHeader : Bool) (text : List Char) : Ingested :=
  let readings := (candidates skipHeader text).map Run.ofText?
  { runs := readings.filterMap id
    skipped := readings.countP (·.isNone) }

end Ingested

end RunCompare
