import CSurvey.Findings
import CSurvey.Json.Value

/-!
The JSON form of tokens, trees, analyses and inspections. Members come in a fixed order. A node
leaves out its value and its children where it has none; elsewhere what is absent is null.
-/

namespace CSurvey

/-- A place as an object. -/
def Position.toJson (p : Position) : Json :=
  .object [("line", .natural p.line), ("column", .natural p.column)]

/-- A token as an object. -/
def Token.toJson (t : Token) : Json :=
  .object [("kind", .string t.kind.name), ("text", .string t.text),
    ("location", t.location.toJson)]

/-- A value of a node as a string or a number. -/
def Node.Value.toJson : Node.Value → Json
  | .text t => .string t
  | .number x => .real x

mutual

/-- A tree as an object. -/
def Node.toJson : Node → Json
  | ⟨kind, value, children, location⟩ =>
    let valueMember := value.toList.map fun v => ("value", v.toJson)
    let childMember :=
      if children.isEmpty then [] else [("children", Json.array (Node.allToJson children))]
    .object (("kind", .string kind.name) :: (valueMember ++ childMember)
      ++ [("location", location.toJson)])

/-- Several trees as objects. -/
def Node.allToJson : List Node → List Json
  | [] => []
  | n :: ns => n.toJson :: Node.allToJson ns

end

/-- A parameter as an object. -/
def ParameterEntry.toJson (p : ParameterEntry) : Json :=
  .object [("type", .string p.type), ("name", .ofText? p.name)]

/-- A function as an object. -/
def FunctionEntry.toJson (f : FunctionEntry) : Json :=
  .object [("name", .string f.name), ("returnType", .string f.returnType),
    ("parameters", .array (f.parameters.map ParameterEntry.toJson)), ("hasBody", .bool f.hasBody)]

/-- A variable as an object. -/
def VariableEntry.toJson (v : VariableEntry) : Json :=
  .object [("name", .string v.name), ("type", .string v.type)]

/-- A macro as an object. -/
def MacroEntry.toJson (m : MacroEntry) : Json :=
  .object [("name", .string m.name), ("value", .ofText? m.value)]

/-- A struct as an object. -/
def StructEntry.toJson (s : StructEntry) : Json :=
  .object [("name", .string s.name), ("memberCount", .natural s.memberCount)]

/-- A survey as an object. -/
def Survey.toJson (a : Survey) : Json :=
  .object [("functions", .array (a.functions.map FunctionEntry.toJson)),
    ("variables", .array (a.variableEntries.map VariableEntry.toJson)),
    ("includes", .ofTexts a.inclusions),
    ("macros", .array (a.macros.map MacroEntry.toJson)),
    ("structs", .array (a.structs.map StructEntry.toJson)),
    ("comments", .ofTexts a.comments),
    ("lines", .natural a.lines),
    ("complexity", .natural a.complexity)]

namespace Findings

/-- The tokens of an examination as a list. -/
def tokensToJson (f : Findings) : Json :=
  .array (f.tokens.map Token.toJson)

/-- A whole examination as an object. -/
def toJson (f : Findings) : Json :=
  .object [("tokens", f.tokensToJson), ("root", f.root.toJson),
    ("diagnostics", .ofTexts f.diagnostics), ("warnings", .ofTexts f.warnings),
    ("analysis", f.survey.toJson)]

/-- What an examination finds out, without tokens and tree. -/
def summaryToJson (f : Findings) : Json :=
  .object [("analysis", f.survey.toJson), ("diagnostics", .ofTexts f.diagnostics),
    ("warnings", .ofTexts f.warnings)]

end Findings

/-- The limits of an examination as an object. -/
def Settings.toJson (c : Settings) : Json :=
  .object [("max_source_len", .natural c.maxBytes), ("max_depth", .natural c.maxNesting),
    ("recover", .bool c.recover)]

/-- The limits of a parse as an object. -/
def ParseSettings.toJson (o : ParseSettings) : Json :=
  .object [("max_depth", .natural o.maxNesting), ("recover", .bool o.recover)]

end CSurvey
