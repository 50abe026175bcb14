import CSurvey.Syntax.Node

/-!
The text of an expression tree. Operands that are themselves made with a binary operator, an
assignment or a conditional stand in parentheses; what stands between brackets of its own does not.
A node that is no expression shows its value, or else the name of its kind.
-/

namespace CSurvey.Node

/-- The text of a child, and whether it needs parentheses as an operand. -/
structure Part where
  compound : Bool
  text : String
deriving DecidableEq, Repr

/-- A part in the position of an operand. -/
def Part.operand (p : Part) : String :=
  if p.compound then "(" ++ p.text ++ ")" else p.text

/-- The operand of the given index; a child that is missing has the empty text. -/
def operandAt (parts : List Part) (i : Nat) : String :=
  (parts[i]?.map Part.operand).getD ""

/-- The bare text of the child of the given index. -/
def textAt (parts : List Part) (i : Nat) : String :=
  (parts[i]?.map Part.text).getD ""

/-- Texts with a comma and a blank between them. -/
def commaList (parts : List Part) : String :=
  ", ".intercalate (parts.map Part.text)

/-- The text of a node, from its kind, its value and the texts of its children. -/
def arrange (kind : Kind) (value : Option Value) (parts : List Part) : String :=
  let op := match value with
    | some (.text t) => t
    | _ => ""
  match kind with
  | .number =>
    match value with
    | some (.number x) => x.text
    | _ => ""
  | .string => "\"" ++ op ++ "\""
  | .character => "'" ++ op ++ "'"
  | .identifier | .macroBody => op
  | .binary | .assignment => operandAt parts 0 ++ " " ++ op ++ " " ++ operandAt parts 1
  | .conditional =>
    operandAt parts 0 ++ " ? " ++ operandAt parts 1 ++ " : " ++ operandAt parts 2
  | .unary => op ++ operandAt parts 0
  | .update => operandAt parts 0 ++ op
  | .cast => "(" ++ op ++ ")" ++ operandAt parts 0
  | .sizeOf =>
    match parts with
    | p :: _ => "sizeof(" ++ p.text ++ ")"
    | [] => "sizeof(" ++ op ++ ")"
  | .index => operandAt parts 0 ++ "[" ++ textAt parts 1 ++ "]"
  | .call => operandAt parts 0 ++ "(" ++ commaList (parts.drop 1) ++ ")"
  | .member => operandAt parts 0 ++ "." ++ textAt parts 1
  | .pointerMember => operandAt parts 0 ++ "->" ++ textAt parts 1
  | .initializerList => "\x7b" ++ commaList parts ++ "\x7d"
  | .empty => ""
  | kind =>
    match value with
    | some v => v.shown
    | none => kind.name

mutual

/-- The text of a tree. -/
def render : Node → String
  | ⟨kind, value, children, _⟩ => arrange kind value (renderAll children)

/-- The texts of several trees. -/
def renderAll : List Node → List Part
  | [] => []
  | n :: ns => ⟨n.kind.isCompound, n.render⟩ :: renderAll ns

end

mutual

/-- The texts of the outermost expressions of a tree, in source order. -/
def expressionTexts : Node → List String
  | ⟨kind, value, children, location⟩ =>
    if kind.isExpression then [render ⟨kind, value, children, location⟩]
    else expressionTextsAll children

/-- The texts of the outermost expressions of several trees. -/
def expressionTextsAll : List Node → List String
  | [] => []
  | n :: ns => n.expressionTexts ++ expressionTextsAll ns

end

end CSurvey.Node
