import CSurvey.Token.Kind
import CSurvey.Token.Position

/-!
Tokens: a kind, the exact text that was cut out of the source, and where it starts.
-/

namespace CSurvey

/-- A piece of source text with its kind and the place of its first character. -/
structure Token where
  kind : Token.Kind
  text : String
  location : Position
deriving DecidableEq, Repr

namespace Token

/-- The token that closes every token list. It has no text. -/
def endOfInput (location : Position) : Token :=
  ⟨.endOfInput, "", location⟩

/-- How messages speak of a token: words and literals with their text, the rest by kind. -/
def describe (t : Token) : String :=
  match t.kind with
  | .identifier => s!"identifier '{t.text}'"
  | .number => s!"number {t.text}"
  | .string => s!"string literal {t.text}"
  | .character => s!"character literal {t.text}"
  | kind => kind.describe

/-- The spelling of the kind, or the text where a kind has no spelling of its own. Keywords match
in any letter case, and so come out in lower case. -/
def spelling (t : Token) : String :=
  t.kind.spelling?.getD t.text

/-- The tokens that a reader sees in a list: no newlines and no end. -/
def isVisible (t : Token) : Bool :=
  match t.kind with
  | .newline | .endOfInput => false
  | _ => true

end Token

end CSurvey
