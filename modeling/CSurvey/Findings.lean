import CSurvey.Survey.Basic
import CSurvey.Grammar.Program
import CSurvey.Text.Lines
import CSurvey.Token.Lexer

/-!
The examination of a source text: its tokens, its tree, the problems met on the way, and its
survey.
-/

namespace CSurvey

/-- The limits of an examination. Numbers are 64-bit. -/
structure Settings where
  /-- The longest source, in bytes, that is read. -/
  maxBytes : Nat := 1048576
  /-- How deep constructs may nest. -/
  maxNesting : Nat := 48
  /-- Whether to go on behind an item that cannot be read. -/
  recover : Bool := true
deriving DecidableEq, Repr

/-- The limits of the parse within an examination. -/
def Settings.parsing (c : Settings) : ParseSettings :=
  ⟨c.maxNesting, c.recover⟩

/-- Why a source is not examined. -/
inductive Refusal where
  | tooLarge (size limit : Nat)
  | lexical (error : LexicalError)
deriving DecidableEq, Repr

/-- The words for a refusal. -/
def Refusal.message : Refusal → String
  | .tooLarge size limit => s!"Source is {size} bytes, limit is {limit}"
  | .lexical e => e.message

/-- All that is found out about a source. -/
structure Findings where
  tokens : List Token
  root : Node
  diagnostics : List String
  warnings : List String
  survey : Survey
deriving DecidableEq, Repr

namespace Findings

/-- Whether all of the source could be read. -/
def isClean (f : Findings) : Bool :=
  f.diagnostics.isEmpty

end Findings

/-- Examines a source text. Its size is checked before anything is read. -/
def examine (source : String) (settings : Settings) : Except Refusal Findings :=
  if settings.maxBytes < source.utf8ByteSize then
    .error (.tooLarge source.utf8ByteSize settings.maxBytes)
  else
    match tokenize source with
    | .error e => .error (.lexical e)
    | .ok tokens =>
      let parsed := parse tokens settings.parsing
      let survey :=
        { Survey.ofNode parsed.root with lines := Text.lineCount source.toList }
      .ok ⟨tokens, parsed.root, parsed.diagnostics, parsed.warnings, survey⟩

end CSurvey
