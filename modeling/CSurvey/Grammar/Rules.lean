import CSurvey.Grammar.State

/-!
The constructs of the grammar that can contain themselves. A rule of the grammar is written over a
`Rules` value, which says how to read the constructs inside it; the value with one more level of
nesting is made from the one before. So no rule calls itself, and a statement about all rules
follows by induction on the levels from statements about each of them.
-/

namespace CSurvey.Grammar

/-- How to read the constructs that can contain themselves. -/
structure Rules where
  /-- A whole expression. -/
  expression : Parse Node
  /-- A conditional expression, one that does not assign. -/
  conditional : Parse Node
  /-- An operand with what stands before it. -/
  unary : Parse Node
  /-- The value of a declared variable: an expression or a list in braces. -/
  initializer : Parse Node
  /-- The keyword for a struct, its tag and perhaps its members. -/
  structSpecifier : Parse Node
  /-- A statement, as the nodes it comes to. -/
  statement : Parse (List Node)

/-- No nesting is left: every construct fails. -/
def Rules.none : Rules where
  expression := fail .exhausted
  conditional := fail .exhausted
  unary := fail .exhausted
  initializer := fail .exhausted
  structSpecifier := fail .exhausted
  statement := fail .exhausted

end CSurvey.Grammar
