import CSurvey.Token.Basic

/-!
Why an item of a file cannot be read, and what is skipped without a failure. A failure keeps its
cause and the place of the token at which it showed; the wording is given here once.
-/

namespace CSurvey.Grammar

/-- Where in the grammar a token is required. -/
inductive Place where
  | after (word : String)
  | afterDefine | afterDeclaration | afterStructMembers | afterStructMember | afterParameters
  | afterArraySize | afterArrayParameter | afterInitializerList | inEllipsis
  | beforeBlock | afterBlock | afterIfCondition | afterForInitializer | afterForCondition
  | afterForClauses | afterWhileCondition | afterDoBody | afterDoWhileCondition | afterDoWhile
  | afterSwitchExpression | afterCaseValue | afterLabel | afterReturn | afterGotoLabel
  | afterExpression | inConditional | afterSizeofType | afterCastType | afterArrayIndex
  | afterArguments
deriving DecidableEq, Repr

/-- The words for a place. -/
def Place.phrase : Place → String
  | .after word => s!"after '{word}'"
  | .afterDefine => "after #define"
  | .afterDeclaration => "after declaration"
  | .afterStructMembers => "after struct members"
  | .afterStructMember => "after struct member"
  | .afterParameters => "after parameters"
  | .afterArraySize => "after array size"
  | .afterArrayParameter => "after array parameter"
  | .afterInitializerList => "after initializer list"
  | .inEllipsis => "in '...'"
  | .beforeBlock => "to open block"
  | .afterBlock => "after block"
  | .afterIfCondition => "after if condition"
  | .afterForInitializer => "after for initializer"
  | .afterForCondition => "after for condition"
  | .afterForClauses => "after for clauses"
  | .afterWhileCondition => "after while condition"
  | .afterDoBody => "after do body"
  | .afterDoWhileCondition => "after do-while condition"
  | .afterDoWhile => "after do-while"
  | .afterSwitchExpression => "after switch expression"
  | .afterCaseValue => "after case value"
  | .afterLabel => "after label"
  | .afterReturn => "after return"
  | .afterGotoLabel => "after goto label"
  | .afterExpression => "after expression"
  | .inConditional => "in conditional expression"
  | .afterSizeofType => "after sizeof type"
  | .afterCastType => "after cast type"
  | .afterArrayIndex => "after array index"
  | .afterArguments => "after function arguments"

/-- What went wrong. `found` is the token that stands where another was wanted. -/
inductive Cause where
  | expected (kind : Token.Kind) (place : Place) (found : Token)
  | openInclusion (found : Token)
  | emptyHeader
  | headerExpected (found : Token)
  | typeExpected (found : Token)
  | tagExpected (found : Token)
  | openStruct (tag : String)
  | declaratorExpected (found : Token)
  | parameterExpected (found : Token)
  | openBlock
  | statementExpected (found : Token)
  | badNumeral (text : String)
  | unexpected (found : Token)
  | tooDeep (limit : Nat)
  | exhausted
deriving DecidableEq, Repr

/-- The words for a cause. -/
def Cause.message : Cause → String
  | .expected kind place found =>
    "Expected " ++ kind.describe ++ " " ++ place.phrase ++ ", found " ++ found.describe
  | .openInclusion found => "Expected '>' to close include, found " ++ found.describe
  | .emptyHeader => "Expected header name after '<'"
  | .headerExpected found =>
    "Expected \"file\" or <header> after #include, found " ++ found.describe
  | .typeExpected found => "Expected type specifier, found " ++ found.describe
  | .tagExpected found => "Expected struct tag, found " ++ found.describe
  | .openStruct tag => s!"Expected '\x7d' to close struct '{tag}', found end of input"
  | .declaratorExpected found => "Expected identifier in declarator, found " ++ found.describe
  | .parameterExpected found => "Expected parameter type, found " ++ found.describe
  | .openBlock => "Expected '\x7d' to close block, found end of input"
  | .statementExpected found => "Expected statement, found " ++ found.describe
  | .badNumeral text => s!"Invalid numeric literal '{text}'"
  | .unexpected found => "Unexpected token: " ++ found.describe
  | .tooDeep limit => s!"Nesting too deep (limit {limit})"
  | .exhausted => "Reading does not come to an end"

/-- A cause and the place of the token at which it showed. -/
structure Failure where
  cause : Cause
  location : Position
deriving DecidableEq, Repr

/-- The full message of a failure. -/
def Failure.message (f : Failure) : String :=
  s!"Parse error at line {f.location.line}, column {f.location.column}: " ++ f.cause.message

/-- Tokens of a struct body that are no member of a supported type, up to the next one that is. -/
structure SkippedMember where
  line : Nat
  tag : String
  texts : List String
deriving DecidableEq, Repr

/-- The note about skipped tokens. -/
def SkippedMember.message (w : SkippedMember) : String :=
  s!"line {w.line}: struct '{w.tag}': skipped unsupported member `"
    ++ " ".intercalate w.texts ++ "`"

end CSurvey.Grammar
