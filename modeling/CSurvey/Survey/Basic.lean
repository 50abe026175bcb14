import CSurvey.Syntax.Render

/-!
What a reader wants to know about a file at a glance: its functions, variables, inclusions, macros,
structs and comments, in the order of the tree, and how much its control flow branches. A node whose
children do not fit its kind still counts, with `unknown` for what cannot be told. Branches are
counted in a word, and a survey may already hold any word when a tree is added to it: behind the
greatest one the count starts from zero again.
-/

namespace CSurvey

/-- A word is written as its number. -/
instance coeWord : Coe UInt64 Nat := ⟨UInt64.toNat⟩

/-- A parameter of a function. -/
structure ParameterEntry where
  type : String
  name : Option String
deriving DecidableEq, Repr

/-- A function that is declared or defined. -/
structure FunctionEntry where
  name : String
  returnType : String
  parameters : List ParameterEntry
  hasBody : Bool
deriving DecidableEq, Repr

/-- A variable. -/
structure VariableEntry where
  name : String
  type : String
deriving DecidableEq, Repr

/-- A macro. -/
structure MacroEntry where
  name : String
  value : Option String
deriving DecidableEq, Repr

/-- A struct that is defined. -/
structure StructEntry where
  name : String
  memberCount : Nat
deriving DecidableEq, Repr

/-- The summary of one or more trees. -/
structure Survey where
  functions : List FunctionEntry := []
  variableEntries : List VariableEntry := []
  inclusions : List String := []
  macros : List MacroEntry := []
  structs : List StructEntry := []
  comments : List String := []
  lines : Nat := 0
  complexity : UInt64 := 0
deriving DecidableEq, Repr

/-- A parameter as it is read: its type and then its name, if it has one. -/
def ParameterEntry.text (p : ParameterEntry) : String :=
  match p.name with
  | some name => p.type ++ " " ++ name
  | none => p.type

/-- The parameters with a comma and a blank between them. -/
def FunctionEntry.parameterText (f : FunctionEntry) : String :=
  ", ".intercalate (f.parameters.map ParameterEntry.text)

namespace Node

/-- What stands for a name or a type that a node does not give. -/
def unknown : String := "unknown"

/-- The text of a node, or `unknown`. -/
def textOrUnknown (n : Node) : String :=
  n.text?.getD unknown

/-- The name that a declaration introduces, when its declarator is of the given kind. -/
def declaredName (n : Node) (kind : Kind) : String :=
  ((n.leading? kind).bind text?).getD unknown

/-- A parameter node as a parameter. -/
def parameterEntry (n : Node) : ParameterEntry :=
  ⟨n.textOrUnknown, n.children.head?.bind text?⟩

/-- The parameters of a function node, read from its declarator. -/
def parameterEntries (n : Node) : List ParameterEntry :=
  match n.leading? .functionDeclarator with
  | some d => (d.children.filter fun c => c.kind = .parameter).map parameterEntry
  | none => []

/-- A function node as a function. -/
def functionEntry (n : Node) : FunctionEntry :=
  ⟨n.declaredName .functionDeclarator, n.textOrUnknown, n.parameterEntries,
    n.kind = .functionDefinition⟩

/-- A variable node as a variable. -/
def variableEntry (n : Node) : VariableEntry :=
  ⟨n.declaredName .variableDeclarator, n.textOrUnknown⟩

/-- A definition node as a macro. -/
def macroEntry (n : Node) : MacroEntry :=
  ⟨n.textOrUnknown, n.children.head?.map render⟩

/-- A struct node as a struct. -/
def structEntry (n : Node) : StructEntry :=
  ⟨n.textOrUnknown, n.children.length⟩

end Node

namespace Survey

/-- The survey with what one node adds to it, its children aside. -/
def note (a : Survey) (n : Node) : Survey :=
  match n.kind with
  | .functionDefinition =>
    { a with functions := a.functions ++ [n.functionEntry], complexity := a.complexity + 1 }
  | .functionDeclaration => { a with functions := a.functions ++ [n.functionEntry] }
  | .variableDeclaration => { a with variableEntries := a.variableEntries ++ [n.variableEntry] }
  | .inclusion => { a with inclusions := a.inclusions ++ [n.textOrUnknown] }
  | .macroDefinition => { a with macros := a.macros ++ [n.macroEntry] }
  | .structDefinition => { a with structs := a.structs ++ [n.structEntry] }
  | .comment => { a with comments := a.comments ++ n.text?.toList }
  | .ifStatement | .forStatement | .whileStatement | .doWhileStatement =>
    { a with complexity := a.complexity + 1 }
  | _ => a

mutual

/-- The survey with what a tree adds to it, from the root down. -/
def add (a : Survey) : Node → Survey
  | ⟨kind, value, children, location⟩ => addAll (a.note ⟨kind, value, children, location⟩) children

/-- The survey with what several trees add to it, tree after tree. -/
def addAll (a : Survey) : List Node → Survey
  | [] => a
  | n :: ns => addAll (a.add n) ns

end

theorem addAll_append (a : Survey) (ms ns : List Node) :
    a.addAll (ms ++ ns) = (a.addAll ms).addAll ns := by
  induction ms generalizing a with
  | nil => rfl
  | cons m ms ih => simp [addAll, ih]

/-- The survey of one tree. Its number of lines is not in the tree. -/
def ofNode (n : Node) : Survey :=
  ({} : Survey).add n

/-- The functions that have a body. -/
def definitions (a : Survey) : List FunctionEntry :=
  a.functions.filter FunctionEntry.hasBody

end Survey

end CSurvey
