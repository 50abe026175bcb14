import CSurvey.Grammar.TypeName
import CSurvey.Number.Reading

/-!
Expressions. From the inside out: primaries, what stands behind them, what stands before them, ten
levels of operators with two operands that group to the left, the conditional and the assignments,
which group to the right. Each nesting and each operator of a chain counts as a level of depth.
-/

namespace CSurvey.Grammar

/-- A literal without its first and last character, the quotes. A text that begins or ends with a
character beyond ASCII is not quoted, and comes out empty. -/
def unquoted (text : String) : String :=
  match text.toList with
  | [] => ""
  | first :: more =>
    if first.toNat < 128 && more.getLast?.all fun last => last.toNat < 128 then
      String.ofList more.dropLast
    else ""

/-- The string literals that stand next, joined to `text`. -/
def moreStrings (text : String) : Parse String :=
  loop
    (fun text => do
      if (← frontKind) = .string then
        let token ← takeFront
        pure (.again (text ++ unquoted token.text))
      else pure (.done text))
    text

/-- A literal, a name or an expression in parentheses. -/
def primary (r : Rules) : Parse Node := do
  let token ← front
  match token.kind with
  | .number =>
    let _ ← takeFront
    match Numeral.read token.text with
    | some value => pure ⟨.number, some (.number value), [], token.location⟩
    | none => failAt token.location (.badNumeral token.text)
  | .string =>
    let _ ← takeFront
    let text ← moreStrings (unquoted token.text)
    pure (.texted .string text token.location [])
  | .character =>
    let _ ← takeFront
    pure (.texted .character (unquoted token.text) token.location [])
  | .identifier =>
    let _ ← takeFront
    pure (.texted .identifier token.text token.location [])
  | .delimiter .leftParen =>
    let _ ← takeFront
    let inner ← r.expression
    let _ ← requireMark .rightParen .afterExpression
    pure inner
  | _ => failFound .unexpected

/-- The arguments of a call, without the parentheses. -/
def arguments (r : Rules) : Parse (List Node) := do
  if (← frontKind) = .delimiter .rightParen then pure []
  else commaSeparated r.expression

/-- Whether a token continues the operand before it. -/
def continuesOperand : Token.Kind → Bool
  | .delimiter .leftBracket | .delimiter .leftParen | .delimiter .dot => true
  | .operator .increment | .operator .decrement | .operator .arrow => true
  | _ => false

/-- The member that an operand is asked for, behind a point or an arrow. -/
def memberOf (kind : Node.Kind) (operand : Node) : Parse Node := do
  let op ← takeFront
  let name ← require .identifier (.after op.text)
  pure (.texted kind op.text op.location
    [operand, .texted .identifier name.text name.location []])

/-- The operand with one index, call, member or update behind it. -/
def continued (r : Rules) (operand : Node) : Parse Node := do
  match ← frontKind with
  | .delimiter .leftBracket =>
    let bracket ← takeFront
    let index ← r.expression
    let _ ← requireMark .rightBracket .afterArrayIndex
    pure (.texted .index "[]" bracket.location [operand, index])
  | .delimiter .leftParen =>
    let paren ← takeFront
    let given ← arguments r
    let _ ← requireMark .rightParen .afterArguments
    pure (.texted .call "()" paren.location (operand :: given))
  | .delimiter .dot => memberOf .member operand
  | .operator .arrow => memberOf .pointerMember operand
  | _ =>
    let op ← takeFront
    pure (.texted .update op.text op.location [operand])

/-- A primary with all that stands behind it. -/
def operand (r : Rules) : Parse Node := do
  let first ← primary r
  loop
    (fun operand => do
      if continuesOperand (← frontKind) then
        goDeeper
        let longer ← continued r operand
        pure (.again longer)
      else pure (.done operand))
    first

/-- Whether a type in parentheses stands next. -/
def typeInParens : Parse Bool := do
  let first ← frontKind
  let second ← secondKind
  pure (first = .delimiter .leftParen && second.startsType)

/-- The size of a type or of an operand. -/
def sizeOf (r : Rules) : Parse Node := do
  let keyword ← takeFront
  if ← typeInParens then
    let _ ← takeFront
    let type ← typeName r
    let _ ← requireMark .rightParen .afterSizeofType
    pure (.texted .sizeOf type keyword.location [])
  else
    let inner ← oneDeeper r.unary
    pure (.plain .sizeOf keyword.location [inner])

/-- An operand converted to a type. -/
def cast (r : Rules) : Parse Node := do
  let paren ← takeFront
  let type ← typeName r
  let _ ← requireMark .rightParen .afterCastType
  let inner ← oneDeeper r.unary
  pure (.texted .cast type paren.location [inner])

/-- An operand with what stands before it. An operator that adds or takes one is followed by an
operand with nothing before it. -/
def unary (r : Rules) : Parse Node := do
  match ← frontKind with
  | .operator sign =>
    if sign.isSign then
      let op ← takeFront
      let inner ← oneDeeper r.unary
      pure (.texted .unary op.text op.location [inner])
    else if sign.isUpdate then
      let op ← takeFront
      let inner ← operand r
      pure (.texted .unary op.text op.location [inner])
    else operand r
  | .keyword .sizeofKw => sizeOf r
  | _ => if ← typeInParens then cast r else operand r

/-- Whether a kind is an operator of the given level. -/
def isOfLevel (level : Nat) : Token.Kind → Bool
  | .operator o => o.level = some level
  | _ => false

/-- Operands with operators of one level between them, grouped to the left. -/
def chain (level : Nat) (operand : Parse Node) : Parse Node := do
  let first ← operand
  loop
    (fun left => do
      if isOfLevel level (← frontKind) then
        goDeeper
        let op ← takeFront
        let right ← operand
        pure (.again (.texted .binary op.text op.location [left, right]))
      else pure (.done left))
    first

/-- Operands with operators of the given level or tighter ones between them. -/
def binary (r : Rules) : Nat → Parse Node
  | 0 => unary r
  | level + 1 => chain (level + 1) (binary r level)

/-- Two alternatives and the condition that chooses, or the condition alone. -/
def conditional (r : Rules) : Parse Node := do
  let condition ← binary r 10
  if (← frontKind) = .operator .question then
    let question ← takeFront
    let whenTrue ← r.expression
    let _ ← requireMark .colon .inConditional
    let whenFalse ← oneDeeper r.conditional
    pure (.texted .conditional "?:" question.location [condition, whenTrue, whenFalse])
  else pure condition

/-- A whole expression: an assignment or a conditional. -/
def expression (r : Rules) : Parse Node :=
  oneDeeper do
    let target ← conditional r
    if (← frontKind).isAssignment then
      let op ← takeFront
      let value ← r.expression
      pure (.texted .assignment op.text op.location [target, value])
    else pure target

end CSurvey.Grammar
