/-
The formats of a report.
-/

namespace RunCompare

/-- The formats of a report. -/
inductive ReportFormat where
  | json
  | jsonPretty
  | console
  | markdown
deriving DecidableEq, Repr

/-- A name that is no format. -/
structure UnknownFormat where
  name : String
deriving DecidableEq, Repr

/-- The message for a name that is no format. -/
def UnknownFormat.message (e : UnknownFormat) : String :=
  "unknown output format '" ++ e.name ++ "' (expected json, json-pretty, console or markdown)"

namespace ReportFormat

/-- The name of a format. -/
def name : ReportFormat → String
  | json => "json"
  | jsonPretty => "json-pretty"
  | console => "console"
  | markdown => "markdown"

/-- The format with a name, in capitals or not; a name that is none is reported in small
letters.  Only the letters of ASCII have a small form here. -/
def ofName (text : String) : Except UnknownFormat ReportFormat :=
  let lower := String.ofList (text.toList.map Char.toLower)
  match lower with
  | "json" => .ok json
  | "json-pretty" | "jsonpretty" => .ok jsonPretty
  | "console" | "text" => .ok console
  | "markdown" | "md" => .ok markdown
  | _ => .error ⟨lower⟩

end ReportFormat

end RunCompare
