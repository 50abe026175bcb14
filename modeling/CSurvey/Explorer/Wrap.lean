import CSurvey.Explorer.Grapheme

/-!
Lines broken into rows of a given width. A row ends before the word that does not fit any more, and
a word that is wider than a row is cut. White space is kept, except for what a break stands for.
-/

namespace CSurvey.Explorer

/-- A line while it is broken into rows: the rows done, the last of them first; the row begun; and
behind it the white space and the word that may still move to the next row. -/
structure Wrapping where
  rows : List (List Grapheme) := []
  row : List Grapheme := []
  gap : List Grapheme := []
  word : List Grapheme := []
  /-- Whether the grapheme before was part of a word. -/
  afterWord : Bool := false
deriving DecidableEq, Repr

/-- White space without as much at its front as fits into `room` cells. -/
def dropFitting (room : Nat) : List Grapheme → List Grapheme
  | [] => []
  | g :: gs => if g.width ≤ room then dropFitting (room - g.width) gs else g :: gs

namespace Wrapping

/-- Moves white space and word to the row. -/
def settle (w : Wrapping) : Wrapping :=
  { w with row := w.row ++ w.gap ++ w.word, gap := [], word := [] }

/-- Ends the row. White space that would have fitted into it goes with the break. -/
def breakRow (width : Nat) (w : Wrapping) : Wrapping :=
  { w with rows := w.row :: w.rows, row := [], gap := dropFitting (width - widthOf w.row) w.gap }

/-- Takes one more grapheme. -/
def push (g : Grapheme) (w : Wrapping) : Wrapping :=
  if g.isBreak then { w with gap := w.gap ++ [g], afterWord := false }
  else { w with word := w.word ++ [g], afterWord := true }

/-- Takes one more grapheme into rows of the given width. A grapheme that is wider than a row is
left out. -/
def take (width : Nat) (w : Wrapping) (g : Grapheme) : Wrapping :=
  if width < g.width then w
  else
    let wordEnds := w.afterWord && g.isBreak
    let overlong := w.row.isEmpty && width < widthOf w.word + widthOf w.gap + g.width
    let w := if wordEnds || overlong then w.settle else w
    let full := width ≤ widthOf w.row
    let wordOver := 0 < g.width && width ≤ widthOf w.row + widthOf w.gap + widthOf w.word
    if full || wordOver then
      let w := w.breakRow width
      if g.isBreak && w.gap.isEmpty then w else w.push g
    else w.push g

/-- The rows in the end. An empty line has one empty row, and a line of white space alone one more
than the white space fills. -/
def finish (w : Wrapping) : List (List Grapheme) :=
  let rows := if w.row.isEmpty && w.word.isEmpty && !w.gap.isEmpty then [] :: w.rows else w.rows
  let last := w.settle.row
  let rows := if last.isEmpty then rows else last :: rows
  if rows.isEmpty then [[]] else rows.reverse

end Wrapping

/-- The rows of a line. -/
def wrapLine (width : Nat) (line : List Grapheme) : List (List Grapheme) :=
  (line.foldl (Wrapping.take width) {}).finish

/-- The rows of several lines. Rows without width cannot hold anything, and there are none. -/
def wrapLines (width : Nat) (lines : List (List Grapheme)) : List (List Grapheme) :=
  if width = 0 then [] else lines.flatMap (wrapLine width)

end CSurvey.Explorer
