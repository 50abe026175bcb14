import CSurvey.Text.Hidden

/-!
The escaped form of a text: one line of visible characters. Backslash, quotes, tab, newline,
carriage return and NUL get a backslash escape, other hidden characters their code point in braces,
and the rest stand for themselves. A mark that would be drawn on a neighbour is escaped only where
there is no character before it.
-/

namespace CSurvey.Text

/-- A code point in braces, in lower-case hexadecimal without leading zeros. -/
def codePointEscape (c : Char) : List Char :=
  '\\' :: 'u' :: '{' :: (Nat.toDigits 16 c.toNat ++ ['}'])

/-- The escaped form of one character; `first` says that no character stands before it. -/
def escapeChar (first : Bool) (c : Char) : List Char :=
  match c with
  | '\x00' => ['\\', '0']
  | '\t' => ['\\', 't']
  | '\n' => ['\\', 'n']
  | '\r' => ['\\', 'r']
  | '\'' => ['\\', '\'']
  | '"' => ['\\', '"']
  | '\\' => ['\\', '\\']
  | c => if (first && isExtending c) || isHidden c then codePointEscape c else [c]

/-- The escaped form of a text, character by character. -/
def escapeChars : List Char → List Char
  | [] => []
  | c :: cs => escapeChar true c ++ cs.flatMap (escapeChar false)

/-- The escaped form of a string. -/
def escaped (text : String) : String :=
  String.ofList (escapeChars text.toList)

end CSurvey.Text
