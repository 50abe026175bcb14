import CSurvey.Grammar.Expression

/-!
Directive lines: inclusions with what they include, definitions with the value that follows the
name, and all others as they stand. A line ends at its newline.
-/

namespace CSurvey.Grammar

/-- The text of a header name, up to the bracket that closes it. -/
def headerName : Parse String := do
  let name ← loop
    (fun name => do
      match ← frontKind with
      | .operator .greater => pure (.done name)
      | .newline | .endOfInput => failFound .openInclusion
      | _ =>
        let token ← takeFront
        pure (.again (name ++ token.text)))
    ""
  if name.isEmpty then fail .emptyHeader
  else
    let _ ← takeFront
    pure ("<" ++ name ++ ">")

/-- What an inclusion includes: a string literal or a header name in angle brackets. -/
def inclusionTarget : Parse String := do
  match ← frontKind with
  | .string =>
    let token ← takeFront
    pure token.text
  | .operator .less =>
    let _ ← takeFront
    headerName
  | _ => failFound .headerExpected

/-- An inclusion. What follows its target on the line is dropped. -/
def inclusion : Parse Node := do
  let marker ← takeFront
  let target ← onDirectiveLine do
    let target ← inclusionTarget
    let _ ← lineTexts
    pure target
  pure (.texted .inclusion target marker.location [])

/-- The value of a macro: an expression, or else the rest of the line as a text, or nothing. -/
def macroValue (r : Rules) : Parse (List Node) := do
  let kind ← frontKind
  if kind.startsExpression then
    let value ← r.expression
    pure [value]
  else if kind = .newline || kind = .endOfInput then pure []
  else
    let location ← here
    let words ← lineTexts
    pure [.texted .macroBody (" ".intercalate words) location []]

/-- A definition. What follows its value on the line is dropped. -/
def macroDefinition (r : Rules) : Parse Node := do
  let marker ← takeFront
  onDirectiveLine do
    let name ← require .identifier .afterDefine
    let value ← macroValue r
    let _ ← lineTexts
    pure (.texted .macroDefinition name.text marker.location value)

/-- Any other directive line, as its words. -/
def otherDirective : Parse Node := do
  let location ← here
  let words ← onDirectiveLine lineTexts
  pure (.texted .directive (" ".intercalate words) location [])

end CSurvey.Grammar
