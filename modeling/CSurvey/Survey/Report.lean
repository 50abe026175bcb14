import CSurvey.Survey.Basic

/-!
The report on a survey: a Markdown text with a section for each list that has entries.
-/

namespace CSurvey.Survey

/-- How many comments a report lists before it counts the rest. -/
def listedComments : Nat := 5

/-- A section: its heading with the number of entries, and a line an entry. Without entries there
is no section. -/
def reportSection {α : Type} (title : String) (entries : List α) (line : α → String) : String :=
  if entries.isEmpty then ""
  else
    s!"\n\n### {title} ({entries.length})"
      ++ String.join (entries.map fun e => "\n- " ++ line e)

/-- The lines for a function, without the mark of the first. -/
def functionLines (f : FunctionEntry) : String :=
  let parameters :=
    if f.parameters.isEmpty then "" else "\n  - Parameters: " ++ f.parameterText
  s!"**{f.name}** (returns {f.returnType})" ++ parameters
    ++ "\n  - Has implementation: " ++ (if f.hasBody then "Yes" else "No")

/-- The line for a macro. A value that is empty is not shown. -/
def macroLine (m : MacroEntry) : String :=
  match m.value with
  | some value => if value.isEmpty then s!"`{m.name}`" else s!"`{m.name}` = `{value}`"
  | none => s!"`{m.name}`"

/-- The section on comments, which lists the first few. -/
def commentSection (comments : List String) : String :=
  if comments.isEmpty then ""
  else
    s!"\n\n### Comments ({comments.length})"
      ++ String.join ((comments.take listedComments).map fun c => s!"\n- `{c}`")
      ++ (if listedComments < comments.length then
            s!"\n- ... and {comments.length - listedComments} more"
          else "")

/-- The whole report, without a newline at its end. -/
def report (a : Survey) : String :=
  "## C Code Analysis\n\n### Program Structure\n"
    ++ s!"- **Total Lines**: {a.lines}\n- **Cyclomatic Complexity**: {a.complexity}"
    ++ reportSection "Functions" a.functions functionLines
    ++ reportSection "Variables" a.variableEntries (fun v => s!"**{v.name}** ({v.type})")
    ++ reportSection "Header Files" a.inclusions (fun i => s!"`{i}`")
    ++ reportSection "Preprocessor Definitions" a.macros macroLine
    ++ reportSection "Structures" a.structs
        (fun s => s!"**{s.name}** ({s.memberCount} members)")
    ++ commentSection a.comments

end CSurvey.Survey
