import CSurvey.Text.Blank
import CSurvey.Text.Numeric
import CSurvey.Token.Kind

/-!
Lexemes: the shortest pieces of source text that carry a kind. `Lexeme.first` cuts one off the
front of a text that does not start with white space. It only splits the text; where pieces lie is
counted elsewhere.
-/

namespace CSurvey.Token

/-- Why no token can be cut off. -/
inductive Flaw where
  | unclosedComment
  | unclosedString
  | unclosedCharacter
  | strayCharacter (c : Char)
deriving DecidableEq, Repr

/-- The words for a flaw. -/
def Flaw.message : Flaw → String
  | .unclosedComment => "Unterminated block comment"
  | .unclosedString => "Unterminated string literal"
  | .unclosedCharacter => "Unterminated character literal"
  | .strayCharacter c => s!"Unexpected character: '{c}'"

/-- What stands at the front of a text: a piece of some kind, or a flaw and what was read before
it showed. Either way `rest` follows `text`. -/
inductive Lexeme where
  | piece (kind : Kind) (text rest : List Char)
  | flaw (cause : Flaw) (text rest : List Char)
deriving DecidableEq, Repr

/-- The lower-case form of a character, as far as it is an ASCII letter: the capital letters and
the Kelvin sign are the only characters with such a form. -/
def lowerCase (c : Char) : Char :=
  if c = '\u212a' then 'k' else c.toLower

/-- A word in lower case. -/
def lowerWord (word : List Char) : List Char :=
  word.map lowerCase

/-- The keyword that a word writes in any letter case. -/
def Keyword.ofWord? (word : List Char) : Option Keyword :=
  Keyword.all.find? fun k => k.spelling.toList = lowerWord word

/-- The directive that a word writes in any letter case. The empty word writes none. -/
def Directive.ofWord? (word : List Char) : Option Directive :=
  if word.isEmpty then none else Directive.all.find? fun d => d.word.toList = lowerWord word

/-- The operator with exactly this spelling. -/
def Operator.ofSpelling? (text : List Char) : Option Operator :=
  Operator.all.find? fun o => o.spelling.toList = text

/-- The delimiter that a character writes. -/
def Delimiter.ofChar? (c : Char) : Option Delimiter :=
  Delimiter.all.find? fun d => d.spelling.toList = [c]

/-- What can open a word. -/
def startsWord (c : Char) : Bool :=
  Text.isAlphabetic c || c = '_'

/-- What can continue a word. -/
def continuesWord (c : Char) : Bool :=
  Text.isAlphanumeric c || c = '_'

/-- What can continue a number: digits, points and the letters of hexadecimal digits. -/
def continuesNumber (c : Char) : Bool :=
  c.isDigit || c = '.' || ('a' ≤ c && c ≤ 'f') || ('A' ≤ c && c ≤ 'F')

/-- White space that does not end the line. -/
def isGap (c : Char) : Bool :=
  Text.isBlank c && c ≠ '\n'

namespace Lexeme

/-- The end of a block comment: the text up to and with the first `*/`, or `none` if there is
none. -/
def closeComment : List Char → Option (List Char × List Char)
  | '*' :: '/' :: rest => some (['*', '/'], rest)
  | c :: rest => (closeComment rest).map fun (text, tail) => (c :: text, tail)
  | [] => none

/-- The inside of a literal and its closing quote. A backslash takes the next character along, and
neither that character nor any other may be a newline. The flag says whether the quote was found;
the first part is what was read. -/
def closeQuote (quote : Char) : List Char → Bool × List Char × List Char
  | [] => (false, [], [])
  | c :: rest =>
    if c = '\n' then (false, [], c :: rest)
    else if c = '\\' then
      match rest with
      | [] => (false, [c], [])
      | d :: tail =>
        if d = '\n' then (false, [c], d :: tail)
        else
          let (closed, text, left) := closeQuote quote tail
          (closed, c :: d :: text, left)
    else if c = quote then (true, [c], rest)
    else
      let (closed, text, left) := closeQuote quote rest
      (closed, c :: text, left)

/-- A literal in the given quotes, which are part of its text. -/
def quoted (quote : Char) (kind : Kind) (flaw : Flaw) (cs : List Char) : Lexeme :=
  match closeQuote quote cs with
  | (true, text, rest) => .piece kind (quote :: text) rest
  | (false, text, rest) => .flaw flaw (quote :: text) rest

/-- A block comment, after its opening `/*`. The `*` of the opening does not close it. -/
def blockComment (cs : List Char) : Lexeme :=
  match closeComment cs with
  | some (text, rest) => .piece .blockComment ('/' :: '*' :: text) rest
  | none => .flaw .unclosedComment ('/' :: '*' :: cs) []

/-- A word: a keyword in any letter case, or an identifier. -/
def word (cs : List Char) : Lexeme :=
  let text := cs.takeWhile continuesWord
  let rest := cs.dropWhile continuesWord
  match Keyword.ofWord? text with
  | some k => .piece (.keyword k) text rest
  | none => .piece .identifier text rest

/-- A directive, after its number sign: blanks and a directive word belong to it. Before any other
word, the number sign stands alone. -/
def directive (cs : List Char) : Lexeme :=
  let gap := cs.takeWhile isGap
  let name := (cs.dropWhile isGap).takeWhile continuesWord
  let rest := (cs.dropWhile isGap).dropWhile continuesWord
  match Directive.ofWord? name with
  | some d => .piece (.directive d) ('#' :: (gap ++ name)) rest
  | none => .piece (.directive .unknown) ['#'] cs

/-- The longest operator at the front. None has more than three characters. -/
def operator? (cs : List Char) : Option Operator :=
  [3, 2, 1].findSome? fun n => Operator.ofSpelling? (cs.take n)

/-- An operator, or else a delimiter. A character that is neither is not taken. -/
def sign (c : Char) (cs : List Char) : Lexeme :=
  match operator? (c :: cs) with
  | some o =>
    let text := o.spelling.toList
    .piece (.operator o) text ((c :: cs).drop text.length)
  | none =>
    match Delimiter.ofChar? c with
    | some d => .piece (.delimiter d) [c] cs
    | none => .flaw (.strayCharacter c) [] (c :: cs)

/-- The lexeme at the front of `c :: cs`, where `c` is no white space. -/
def first (c : Char) (cs : List Char) : Lexeme :=
  match c, cs with
  | '/', '/' :: rest =>
    .piece .lineComment ('/' :: '/' :: rest.takeWhile (· ≠ '\n')) (rest.dropWhile (· ≠ '\n'))
  | '/', '*' :: rest => blockComment rest
  | '"', rest => quoted '"' .string .unclosedString rest
  | '\'', rest => quoted '\'' .character .unclosedCharacter rest
  | '#', rest => directive rest
  | c, rest =>
    if c.isDigit then
      .piece .number (c :: rest.takeWhile continuesNumber) (rest.dropWhile continuesNumber)
    else if startsWord c then word (c :: rest)
    else sign c rest

end Lexeme

end CSurvey.Token
