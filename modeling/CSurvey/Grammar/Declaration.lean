import CSurvey.Grammar.Declarator

/-!
Declarations: a type and the names declared with it, each perhaps with an initial value; or a
function with its body. A struct body written in a declaration goes to the first name declared.
-/

namespace CSurvey.Grammar

/-- An initial value: an expression, or a list of initial values in braces. A comma may end the
list. -/
def initializer (r : Rules) : Parse Node := do
  if (← frontKind) = .delimiter .leftBrace then
    let brace ← takeFront
    let items ← loop
      (fun items => do
        if (← frontKind) = .delimiter .rightBrace then pure (.done items)
        else
          let item ← oneDeeper r.initializer
          if ← accept (.delimiter .comma) then pure (.again (item :: items))
          else pure (.done (item :: items)))
      []
    let _ ← requireMark .rightBrace .afterInitializerList
    pure (.plain .initializerList brace.location items.reverse)
  else r.expression

/-- Statements in braces. Comments between them are kept among them. -/
def block (r : Rules) : Parse Node := do
  let brace ← requireMark .leftBrace .beforeBlock
  let found ← loop
    (fun found => do
      let comments ← takeComments
      let found := comments.reverse ++ found
      match ← frontKind with
      | .delimiter .rightBrace => pure (.done found)
      | .endOfInput => fail .openBlock
      | _ =>
        let nodes ← r.statement
        pure (.again (nodes.reverse ++ found)))
    []
  let _ ← requireMark .rightBrace .afterBlock
  pure (.plain .block brace.location found.reverse)

/-- The node for one declared name that is no function definition, with the initial value that may
follow a variable. -/
def declared (r : Rules) (location : Position) (type : String) (d : Declarator)
    (body : Option Node) : Parse Node := do
  if d.declaresFunction then
    pure (.texted .functionDeclaration type location (d.node :: body.toList))
  else if ← accept (.operator .assign) then
    let value ← initializer r
    pure (.texted .variableDeclaration type location (d.node :: value :: body.toList))
  else pure (.texted .variableDeclaration type location (d.node :: body.toList))

/-- The nodes of a declaration while its names are read, latest first, and whether a function body
has closed the declaration. -/
structure DeclaredNames where
  nodes : List Node
  closed : Bool
deriving DecidableEq, Repr

/-- The names of a declaration and what follows each of them. -/
def declaredNames (r : Rules) (location : Position) (type : TypeSpecifier) (body : Option Node) :
    Parse DeclaredNames :=
  loop
    (fun names => do
      let body := if names.nodes.isEmpty then body else none
      let d ← declarator r
      let full := d.wholeType type.text
      if d.declaresFunction && (← frontKind) = .delimiter .leftBrace then
        let code ← block r
        let node := .texted .functionDefinition full location (d.node :: code :: body.toList)
        pure (.done ⟨node :: names.nodes, true⟩)
      else
        let node ← declared r location full d body
        if ← accept (.delimiter .comma) then pure (.again ⟨node :: names.nodes, false⟩)
        else pure (.done ⟨node :: names.nodes, false⟩))
    ⟨[], false⟩

/-- A declaration: a node a name. A type alone gives the node of its struct, if it has one. -/
def declaration (r : Rules) : Parse (List Node) := do
  let location ← here
  let type ← typeSpecifier r
  if ← accept (.delimiter .semicolon) then pure type.structNode.toList
  else
    let body := type.structNode.filter fun n => n.kind = .structDefinition
    let names ← declaredNames r location type body
    if names.closed then pure names.nodes.reverse
    else
      let _ ← requireMark .semicolon .afterDeclaration
      pure names.nodes.reverse

end CSurvey.Grammar
