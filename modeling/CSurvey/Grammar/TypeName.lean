import CSurvey.Grammar.Rules
import CSurvey.Syntax.Render

/-!
Types: modifiers, then the name of a base type or a struct; modifiers alone name a type too.
Types come out as texts, in lower case, with a star a pointer level.
-/

namespace CSurvey.Grammar

/-- A type as its text, and the node of the struct that it names, if it names one. -/
structure TypeSpecifier where
  text : String
  structNode : Option Node
deriving DecidableEq, Repr

/-- The type modifiers that stand next. -/
def typeModifiers : Parse (List String) := do
  let words ← loop
    (fun words => do
      if (← frontKind).isTypeModifier then
        let token ← takeFront
        pure (.again (token.spelling :: words))
      else pure (.done words))
    []
  pure words.reverse

/-- A type without pointer stars. -/
def typeSpecifier (r : Rules) : Parse TypeSpecifier := do
  let words ← typeModifiers
  let kind ← frontKind
  if kind.isBaseType then
    let token ← takeFront
    pure ⟨" ".intercalate (words ++ [token.spelling]), none⟩
  else if kind = .keyword .structKw then
    let node ← r.structSpecifier
    let named := "struct " ++ node.text?.getD ""
    pure ⟨" ".intercalate (words ++ [named]), some node⟩
  else if words.isEmpty then failFound .typeExpected
  else pure ⟨" ".intercalate words, none⟩

/-- The type text with a star for each star that stands next. -/
def pointerStars (type : String) : Parse String :=
  loop
    (fun type => do
      if ← accept (.operator .star) then pure (.again (type ++ "*"))
      else pure (.done type))
    type

/-- A type with its pointer stars, as in casts. -/
def typeName (r : Rules) : Parse String := do
  let type ← typeSpecifier r
  pointerStars type.text

end CSurvey.Grammar
