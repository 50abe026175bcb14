import CSurvey.Grammar.Declaration
import CSurvey.Grammar.DirectiveLine

/-!
Statements. A statement comes to any number of nodes: a declaration to one for each name, a lone
semicolon to none. Where the grammar has room for a single statement, the nodes are brought down to
one.
-/

namespace CSurvey.Grammar

/-- The nodes of a statement as one node: none are an absent one, several a block. -/
def asSingle (location : Position) : List Node → Node
  | [] => .absent location
  | [n] => n
  | nodes => .plain .block location nodes

/-- A statement as one node. -/
def singleStatement (r : Rules) : Parse Node := do
  let location ← here
  let nodes ← r.statement
  pure (asSingle location nodes)

/-- An expression in parentheses, as the keyword of a statement asks for it. -/
def condition (r : Rules) (word : String) (place : Place) : Parse Node := do
  let _ ← requireMark .leftParen (.after word)
  let value ← r.expression
  let _ ← requireMark .rightParen place
  pure value

/-- A choice between a statement and, perhaps, another one. -/
def ifStatement (r : Rules) : Parse Node := do
  let keyword ← takeFront
  let test ← condition r "if" .afterIfCondition
  let whenTrue ← singleStatement r
  if ← accept (.keyword .elseKw) then
    let whenFalse ← singleStatement r
    pure (.texted .ifStatement "if" keyword.location [test, whenTrue, whenFalse])
  else pure (.texted .ifStatement "if" keyword.location [test, whenTrue])

/-- What a counting loop does first. -/
def forStart (r : Rules) : Parse Node := do
  let location ← here
  if ← accept (.delimiter .semicolon) then pure (.absent location)
  else if (← frontKind).startsType then
    let nodes ← declaration r
    match nodes with
    | [n] => pure n
    | nodes => pure (.plain .block location nodes)
  else
    let value ← r.expression
    let _ ← requireMark .semicolon .afterForInitializer
    pure value

/-- An expression, or an absent node before the given delimiter. -/
def optionalBefore (r : Rules) (mark : Token.Delimiter) : Parse Node := do
  if (← frontKind) = .delimiter mark then
    let location ← here
    pure (.absent location)
  else r.expression

/-- A counting loop. It always has four children; a clause that is missing is absent. -/
def forStatement (r : Rules) : Parse Node := do
  let keyword ← takeFront
  let _ ← requireMark .leftParen (.after "for")
  let start ← forStart r
  let test ← optionalBefore r .semicolon
  let _ ← requireMark .semicolon .afterForCondition
  let step ← optionalBefore r .rightParen
  let _ ← requireMark .rightParen .afterForClauses
  let body ← singleStatement r
  pure (.texted .forStatement "for" keyword.location [start, test, step, body])

/-- A loop that tests first. -/
def whileStatement (r : Rules) : Parse Node := do
  let keyword ← takeFront
  let test ← condition r "while" .afterWhileCondition
  let body ← singleStatement r
  pure (.texted .whileStatement "while" keyword.location [test, body])

/-- A loop that tests last. -/
def doWhileStatement (r : Rules) : Parse Node := do
  let keyword ← takeFront
  let body ← singleStatement r
  let _ ← require (.keyword .whileKw) .afterDoBody
  let test ← condition r "while" .afterDoWhileCondition
  let _ ← requireMark .semicolon .afterDoWhile
  pure (.texted .doWhileStatement "do-while" keyword.location [body, test])

/-- A choice between labels. -/
def switchStatement (r : Rules) : Parse Node := do
  let keyword ← takeFront
  let value ← condition r "switch" .afterSwitchExpression
  let body ← singleStatement r
  pure (.texted .switchStatement "switch" keyword.location [value, body])

/-- The label of one case. -/
def caseLabel (r : Rules) : Parse Node := do
  let keyword ← takeFront
  let value ← r.expression
  let _ ← requireMark .colon .afterCaseValue
  pure (.texted .caseLabel "case" keyword.location [value])

/-- The label of all other cases. -/
def defaultLabel : Parse Node := do
  let keyword ← takeFront
  let _ ← requireMark .colon (.after "default")
  pure (.texted .defaultLabel "default" keyword.location [])

/-- A label to go to. -/
def label : Parse Node := do
  let name ← takeFront
  let _ ← requireMark .colon .afterLabel
  pure (.texted .label name.text name.location [])

/-- The end of a function call, perhaps with a value. -/
def returnStatement (r : Rules) : Parse Node := do
  let keyword ← takeFront
  if (← frontKind) = .delimiter .semicolon then
    let _ ← requireMark .semicolon .afterReturn
    pure (.texted .returnStatement "return" keyword.location [])
  else
    let value ← r.expression
    let _ ← requireMark .semicolon .afterReturn
    pure (.texted .returnStatement "return" keyword.location [value])

/-- The end of a loop or of one round of it. -/
def jump (kind : Node.Kind) (word : String) : Parse Node := do
  let keyword ← takeFront
  let _ ← requireMark .semicolon (.after keyword.text)
  pure (.texted kind word keyword.location [])

/-- A jump to a label. -/
def gotoStatement : Parse Node := do
  let keyword ← takeFront
  let target ← require .identifier (.after "goto")
  let _ ← requireMark .semicolon .afterGotoLabel
  pure (.texted .gotoStatement target.text keyword.location [])

/-- An expression as a statement. -/
def expressionStatement (r : Rules) : Parse Node := do
  let location ← here
  let value ← r.expression
  let _ ← requireMark .semicolon .afterExpression
  pure (.plain .expressionStatement location [value])

/-- A node as the only one of its statement. -/
def one (p : Parse Node) : Parse (List Node) := do
  let node ← p
  pure [node]

/-- Whether a name with a colon behind it stands next. -/
def labelAhead : Parse Bool := do
  let first ← frontKind
  let second ← secondKind
  pure (first = .identifier && second = .delimiter .colon)

/-- A declaration, an expression or a token to pass over, whichever the next token opens. -/
def openStatement (r : Rules) (kind : Token.Kind) : Parse (List Node) := do
  if ← labelAhead then one label
  else if kind.startsType then declaration r
  else if kind.startsExpression then one (expressionStatement r)
  else if kind = .delimiter .rightBrace || kind = .endOfInput then failFound .statementExpected
  else
    let _ ← takeFront
    pure []

/-- A statement, by the token that opens it. -/
def statementOf (r : Rules) (kind : Token.Kind) : Parse (List Node) :=
  match kind with
  | .keyword .ifKw => one (ifStatement r)
  | .keyword .forKw => one (forStatement r)
  | .keyword .whileKw => one (whileStatement r)
  | .keyword .doKw => one (doWhileStatement r)
  | .keyword .switchKw => one (switchStatement r)
  | .keyword .caseKw => one (caseLabel r)
  | .keyword .defaultKw => one defaultLabel
  | .keyword .returnKw => one (returnStatement r)
  | .keyword .breakKw => one (jump .breakStatement "break")
  | .keyword .continueKw => one (jump .continueStatement "continue")
  | .keyword .gotoKw => one gotoStatement
  | .delimiter .leftBrace => one (block r)
  | .directive .inclusion => one inclusion
  | .directive .definition => one (macroDefinition r)
  | .directive _ => one otherDirective
  | kind => openStatement r kind

/-- A statement, one level deeper than what contains it. -/
def statement (r : Rules) : Parse (List Node) :=
  oneDeeper do statementOf r (← frontKind)

end CSurvey.Grammar
