import CSurvey.Token.Basic
import CSurvey.Token.Lexeme

/-!
Tokens of a source text. A cursor is the text still to be read and its place; reading alternates
between skipping white space and cutting off a lexeme. Newlines are tokens too, and the list always
ends with the end of input. A flaw stops the reading, and leaves the cursor where the flaw showed.
-/

namespace CSurvey

/-- A flaw and the place where the token that has it starts. -/
structure LexicalError where
  cause : Token.Flaw
  location : Position
deriving DecidableEq, Repr

/-- The full message of a flaw. -/
def LexicalError.message (e : LexicalError) : String :=
  s!"Lexer error at line {e.location.line}, column {e.location.column}: " ++ e.cause.message

/-- The text still to be read, and where it starts. -/
structure Cursor where
  rest : List Char
  location : Position
deriving DecidableEq, Repr

namespace Cursor

/-- The start of a source text. -/
def ofSource (source : String) : Cursor :=
  ⟨source.toList, .start⟩

/-- The cursor behind `text`, when `rest` follows it. -/
def past (c : Cursor) (text rest : List Char) : Cursor :=
  ⟨rest, c.location.after text⟩

/-- Reads tokens up to the end or the first flaw. The tokens read come last first in `done`. Each
round takes a character at least, so the characters left at the start bound the rounds. -/
def readAll (rounds : List Char) (done : List Token) (c : Cursor) :
    Except LexicalError (List Token) × Cursor :=
  match c.rest, rounds with
  | [], _ | _, [] => (.ok (done.reverse ++ [.endOfInput c.location]), c)
  | ch :: cs, _ :: rounds =>
    if ch = '\n' then
      readAll rounds (⟨.newline, "\n", c.location⟩ :: done) (c.past [ch] cs)
    else if Text.isBlank ch then readAll rounds done (c.past [ch] cs)
    else
      match Token.Lexeme.first ch cs with
      | .piece kind text rest =>
        readAll rounds (⟨kind, String.ofList text, c.location⟩ :: done) (c.past text rest)
      | .flaw cause text rest => (.error ⟨cause, c.location⟩, c.past text rest)

/-- The tokens from the cursor on, and the cursor after them. -/
def tokens (c : Cursor) : Except LexicalError (List Token) × Cursor :=
  readAll c.rest [] c

end Cursor

/-- The tokens of a source text. -/
def tokenize (source : String) : Except LexicalError (List Token) :=
  (Cursor.ofSource source).tokens.1

end CSurvey
