import CSurvey.Findings
import CSurvey.Survey.Report
import CSurvey.Json.Export
import CSurvey.Syntax.Outline
import CSurvey.Text.Escaped

/-!
The outputs of an examination as texts: the report with its problems, the summary as JSON, a line a
token, and a line a node.
-/

namespace CSurvey.Findings

/-- A line a text. -/
def asLines (texts : List String) : String :=
  String.join (texts.map (· ++ "\n"))

/-- The section on problems that follows the report, if there are any. -/
def problems (f : Findings) : String :=
  if f.diagnostics.isEmpty && f.warnings.isEmpty then ""
  else
    asLines (["", "### Diagnostics"] ++ f.diagnostics.map ("- " ++ ·)
      ++ f.warnings.map ("- warning: " ++ ·))

/-- The report and the problems. -/
def reportText (f : Findings) : String :=
  f.survey.report ++ "\n" ++ f.problems

/-- The summary as JSON. -/
def jsonText (f : Findings) : String :=
  f.summaryToJson.pretty ++ "\n"

/-- A token as a line: its place, its kind and its text, escaped. -/
def tokenLine (t : Token) : String :=
  t.location.text ++ " " ++ t.kind.name ++ " " ++ Text.escaped t.text

/-- The tokens, a line each. -/
def tokenListing (f : Findings) : String :=
  asLines (f.tokens.map tokenLine)

/-- The tree, a line a node. -/
def treeListing (f : Findings) : String :=
  asLines (f.root.outline.map OutlineLine.text)

end CSurvey.Findings
