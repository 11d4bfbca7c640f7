/-
The text of a report in any of its formats.
-/
import RunCompare.Report.Console
import RunCompare.Report.Format
import RunCompare.Report.Json
import RunCompare.Report.Markdown

namespace RunCompare.Report

/-- The text of a report. -/
def render (format : ReportFormat) (r : Report Binary64) : String :=
  match format with
  | .json => r.toJson.compact
  | .jsonPretty => r.toJson.indented
  | .console => Console.text r
  | .markdown => Markdown.text r

end RunCompare.Report
