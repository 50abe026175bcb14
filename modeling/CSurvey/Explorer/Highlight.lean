import CSurvey.Explorer.Style
import CSurvey.Text.Lines
import CSurvey.Token.Basic

/-!
Source text in colours. Each character of the shown lines has a style, and each token paints the
places that its text covers; where tokens overlap, the later one shows. What falls outside the lines
is not painted.
-/

namespace CSurvey.Explorer

/-- A character of a line and how it is drawn. -/
structure Glyph where
  char : Char
  style : Style
deriving DecidableEq, Repr

/-- How a token is drawn. A name before a left parenthesis is drawn as a function. -/
def kindStyle (kind : Token.Kind) (isCalled : Bool) : Style :=
  if kind.isComment then .ink Palette.faint
  else if kind.isDirective then .ink Palette.directive
  else if kind.startsType then .ink Palette.type
  else if kind.isKeyword then (Style.ink Palette.keyword).strong
  else
    match kind with
    | .string => .ink Palette.string
    | .number | .character => .ink Palette.number
    | .identifier => .ink (if isCalled then Palette.function else Palette.text)
    | .delimiter .leftParen | .delimiter .rightParen | .delimiter .leftBracket
    | .delimiter .rightBracket | .delimiter .leftBrace | .delimiter .rightBrace =>
      .ink Palette.accent
    | _ => .ink Palette.text

/-- A line with the character of the given column in another style. Columns count from one. -/
def paintColumn (style : Style) (column : Nat) (line : Array Glyph) : Array Glyph :=
  if column = 0 then line else line.modify (column - 1) fun g => { g with style }

/-- Lines with the character at a place in another style. Lines count from one. -/
def paintPlace (style : Style) (place : Position) (lines : Array (Array Glyph)) :
    Array (Array Glyph) :=
  if place.line = 0 then lines
  else lines.modify (place.line - 1) (paintColumn style place.column)

/-- Paints a text from a place on. A newline goes on at the start of the next line. -/
def paintText (style : Style) (place : Position) (lines : Array (Array Glyph)) :
    List Char → Array (Array Glyph)
  | [] => lines
  | c :: cs =>
    let lines := if c = '\n' then lines else paintPlace style place lines
    paintText style (place.next c) lines cs

/-- Paints tokens one after another. Each is told whether a left parenthesis follows. -/
def paintTokens (lines : Array (Array Glyph)) : List Token → Array (Array Glyph)
  | [] => lines
  | t :: ts =>
    let isCalled := t.kind = .identifier
      && ts.head?.any fun next => next.kind = .delimiter .leftParen
    paintTokens (paintText (kindStyle t.kind isCalled) t.location lines t.text.toList) ts

/-- The lines of a source text, painted by tokens. Blanks keep the plain style. -/
def highlight (source : String) (tokens : List Token) : List (List Glyph) :=
  let lines := (Text.lines source.toList).map fun line =>
    (line.map fun c => Glyph.mk c .none).toArray
  (paintTokens lines.toArray (tokens.filter Token.isVisible)).toList.map Array.toList

end CSurvey.Explorer
