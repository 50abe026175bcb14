import CSurvey.Grammar.TypeName

/-!
Declarators: the name that a declaration introduces, with the pointer stars before it and the array
sizes or the parameters behind it; and the members of structs, which are declared in the same way.
-/

namespace CSurvey.Grammar

/-- A declared name as a node, with the stars and array sizes that belong to its type. -/
structure Declarator where
  node : Node
  stars : Nat
  sizes : List String
deriving DecidableEq, Repr

namespace Declarator

/-- The type of the declared name, or of what the declared function returns. -/
def wholeType (d : Declarator) (base : String) : String :=
  base ++ String.ofList (List.replicate d.stars '*')
    ++ String.join (d.sizes.map fun size => "[" ++ size ++ "]")

/-- Whether a function is declared. -/
def declaresFunction (d : Declarator) : Bool :=
  d.node.kind = .functionDeclarator

end Declarator

/-- Steps over the qualifiers behind a pointer star. -/
def skipQualifiers : Parse Unit :=
  loop
    (fun _ => do
      match ← frontKind with
      | .keyword .constKw | .keyword .volatileKw =>
        let _ ← takeFront
        pure (.again ())
      | _ => pure (.done ()))
    ()

/-- The number of pointer stars that stand next, each with its qualifiers. -/
def pointers : Parse Nat :=
  loop
    (fun stars => do
      if ← accept (.operator .star) then
        skipQualifiers
        pure (.again (stars + 1))
      else pure (.done stars))
    0

/-- One array size in brackets; a size that is not given is an absent node. -/
def arraySize (r : Rules) : Parse Node := do
  let bracket ← takeFront
  if ← accept (.delimiter .rightBracket) then pure (.absent bracket.location)
  else
    let size ← r.expression
    let _ ← requireMark .rightBracket .afterArraySize
    pure size

/-- The array sizes that stand next. -/
def arraySizes (r : Rules) : Parse (List Node) := do
  let sizes ← loop
    (fun sizes => do
      if (← frontKind) = .delimiter .leftBracket then
        let size ← arraySize r
        pure (.again (size :: sizes))
      else pure (.done sizes))
    []
  pure sizes.reverse

/-- The type of a parameter with its array sizes. -/
def parameterSizes (r : Rules) (type : String) : Parse String :=
  loop
    (fun type => do
      if ← accept (.delimiter .leftBracket) then
        let size ←
          if (← frontKind) = .delimiter .rightBracket then pure ""
          else
            let size ← r.expression
            pure size.render
        let _ ← requireMark .rightBracket .afterArrayParameter
        pure (.again (type ++ "[" ++ size ++ "]"))
      else pure (.done type))
    type

/-- The name of a parameter, if it has one. -/
def parameterName : Parse (List Node) := do
  if (← frontKind) = .identifier then
    let name ← takeFront
    pure [.texted .identifier name.text name.location []]
  else pure []

/-- A parameter: a type, perhaps a name, perhaps array sizes. -/
def parameter (r : Rules) : Parse Node := do
  let location ← here
  if (← frontKind).startsType then
    let type ← typeName r
    let name ← parameterName
    let type ← parameterSizes r type
    pure (.texted .parameter type location name)
  else failFound .parameterExpected

/-- The three points that stand for any further arguments. -/
def ellipsis : Parse Node := do
  let location ← here
  let _ ← requireMark .dot .inEllipsis
  let _ ← requireMark .dot .inEllipsis
  let _ ← requireMark .dot .inEllipsis
  pure (.texted .parameter "..." location [])

/-- One or more parameters; the three points may only come last. -/
def parameters (r : Rules) : Parse (List Node) := do
  let found ← loop
    (fun found => do
      if (← frontKind) = .delimiter .dot then
        let last ← ellipsis
        pure (.done (last :: found))
      else
        let next ← parameter r
        if ← accept (.delimiter .comma) then pure (.again (next :: found))
        else pure (.done (next :: found)))
    []
  pure found.reverse

/-- The parameters of a function, without the parentheses. The word `void` alone means none. -/
def parameterList (r : Rules) : Parse (List Node) := do
  let first ← frontKind
  let second ← secondKind
  if first = .delimiter .rightParen then pure []
  else if first = .keyword .voidKw && second = .delimiter .rightParen then
    let _ ← takeFront
    pure []
  else parameters r

/-- A declared name with what stands around it. -/
def declarator (r : Rules) : Parse Declarator := do
  let stars ← pointers
  if (← frontKind) = .identifier then
    let name ← takeFront
    if ← accept (.delimiter .leftParen) then
      let params ← parameterList r
      let _ ← requireMark .rightParen .afterParameters
      pure ⟨.texted .functionDeclarator name.text name.location params, stars, []⟩
    else
      let sizes ← arraySizes r
      pure ⟨.texted .variableDeclarator name.text name.location sizes, stars,
        sizes.map Node.render⟩
  else failFound .declaratorExpected

/-- The members that one line of a struct body declares: a node each. -/
def structMembers (r : Rules) : Parse (List Node) := do
  let location ← here
  let type ← typeSpecifier r
  let declared ← commaSeparated (declarator r)
  let _ ← requireMark .semicolon .afterStructMember
  pure (declared.map fun d => .texted .structMember (d.wholeType type.text) location [d.node])

/-- What is known of a struct body while it is read: its members so far, and the tokens passed over
since the last of them. Both lists have the latest first. -/
structure StructBody where
  members : List Node
  passed : List Token
deriving DecidableEq, Repr

/-- Makes a note of the tokens passed over, if there are any. -/
def reportPassed (tag : String) (passed : List Token) : Parse Unit :=
  match passed.getLast? with
  | none => pure ()
  | some first => note ⟨first.location.line, tag, passed.reverse.map Token.text⟩

/-- Passes over a left brace and all up to the brace that matches it. -/
def passBraces (passed : List Token) : Parse (List Token) := do
  let (_, passed) ← loop
    (fun (depth, passed) => do
      let token ← takeFront
      match token.kind with
      | .endOfInput => pure (.done (depth, passed))
      | .delimiter .leftBrace => pure (.again (depth + 1, token :: passed))
      | .delimiter .rightBrace =>
        if depth ≤ 1 then pure (.done (0, token :: passed))
        else pure (.again (depth - 1, token :: passed))
      | _ =>
        if depth = 0 then pure (.done (0, token :: passed))
        else pure (.again (depth, token :: passed)))
    (0, passed)
  pure passed

/-- The members of a struct, up to the closing brace. Only members of a few base types are kept;
of the rest a note is made. -/
def structBody (r : Rules) (tag : String) : Parse (List Node) := do
  let body ← loop
    (fun body => do
      let kind ← frontKind
      if kind = .delimiter .rightBrace then pure (.done body)
      else if kind = .endOfInput then fail (.openStruct tag)
      else if kind.isMemberType then
        reportPassed tag body.passed
        let found ← structMembers r
        pure (.again ⟨found.reverse ++ body.members, []⟩)
      else if kind = .delimiter .leftBrace then
        let passed ← passBraces body.passed
        pure (.again ⟨body.members, passed⟩)
      else
        let token ← takeFront
        pure (.again ⟨body.members, token :: body.passed⟩))
    (StructBody.mk [] [])
  reportPassed tag body.passed
  pure body.members.reverse

/-- A struct: its tag alone, or with its members in braces. -/
def structSpecifier (r : Rules) : Parse Node := do
  let keyword ← takeFront
  if (← frontKind) = .identifier then
    let tag ← takeFront
    if ← accept (.delimiter .leftBrace) then
      let members ← structBody r tag.text
      let _ ← requireMark .rightBrace .afterStructMembers
      pure (.texted .structDefinition tag.text keyword.location members)
    else pure (.texted .structDeclaration tag.text keyword.location [])
  else failFound .tagExpected

end CSurvey.Grammar
