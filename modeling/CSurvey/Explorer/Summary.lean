import CSurvey.Explorer.Style
import CSurvey.Findings

/-!
The summary of an examination, line by line: counts, problems, and what the file declares.
-/

namespace CSurvey.Explorer

/-- The heading over a list, with the number of entries. -/
def headingLine (title : String) (size : Nat) : List Span :=
  [⟨s!"{title} ({size})", (Style.ink Palette.accent).strong⟩]

/-- A name with something about it. -/
def entryLine (name detail : String) : List Span :=
  [⟨"  ", .none⟩, ⟨name, .ink Palette.function⟩, ⟨" " ++ detail, .ink Palette.faint⟩]

/-- A heading and a line an entry, or nothing without entries. -/
def summarySection {α : Type} (title : String) (items : List α) (line : α → List Span) :
    List (List Span) :=
  if items.isEmpty then [] else headingLine title items.length :: items.map line

/-- The line for a function: its parameters, what it returns, and a semicolon if it has no body. -/
def functionLine (f : FunctionEntry) : List Span :=
  let closing := if f.hasBody then "" else " ;"
  entryLine f.name (s!"({f.parameterText}) -> {f.returnType}" ++ closing)

/-- The lines of a summary. -/
def summary (findings : Findings) : List (List Span) :=
  let a := findings.survey
  [[⟨"Lines ", .ink Palette.faint⟩, ⟨toString a.lines, .ink Palette.number⟩,
      ⟨"  Complexity ", .ink Palette.faint⟩, ⟨toString a.complexity, .ink Palette.number⟩]]
    ++ findings.diagnostics.map (fun d => [⟨d, .ink Palette.failure⟩])
    ++ findings.warnings.map (fun w => [⟨w, .ink Palette.note⟩])
    ++ summarySection "Functions" a.functions functionLine
    ++ summarySection "Variables" a.variableEntries (fun v => entryLine v.name v.type)
    ++ summarySection "Includes" a.inclusions (fun name => entryLine name "")
    ++ summarySection "Macros" a.macros (fun m => entryLine m.name (m.value.getD ""))
    ++ summarySection "Structs" a.structs (fun s => entryLine s.name s!"{s.memberCount} members")
    ++ (if a.comments.isEmpty then [] else [headingLine "Comments" a.comments.length])

end CSurvey.Explorer
