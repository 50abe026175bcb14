import CSurvey.Explorer.Style
import CSurvey.Text.Blank
import CSurvey.Text.Cluster
import CSurvey.Text.Width

/-!
Texts as a terminal draws them: each cluster of characters is one grapheme, and a grapheme takes
some cells of its row. Control characters take a cell, apart from newlines.
-/

namespace CSurvey.Explorer

/-- A cluster of characters in a style. -/
structure Grapheme where
  chars : List Char
  style : Style
deriving DecidableEq, Repr

namespace Grapheme

/-- The cells that a grapheme takes. -/
def width (g : Grapheme) : Nat :=
  Text.clusterWidth g.chars

/-- Its characters as a string. -/
def text (g : Grapheme) : String :=
  String.ofList g.chars

/-- Whether a line may be broken at a grapheme: it is all white space, but no space that holds its
neighbours together, or it is the zero width space. -/
def isBreak (g : Grapheme) : Bool :=
  g.chars = ['\u200b'] || (g.chars.all Text.isBlank && g.chars ≠ ['\u00a0'])

end Grapheme

/-- The width of graphemes in a row. -/
def widthOf (gs : List Grapheme) : Nat :=
  gs.foldr (fun g width => g.width + width) 0

/-- The graphemes of a span, without newlines. -/
def Span.graphemes (s : Span) : List Grapheme :=
  ((Text.clusters s.text.toList).filter (· ≠ ['\n'])).map fun g => ⟨g, s.style⟩

/-- The graphemes of a line. -/
def lineGraphemes (line : List Span) : List Grapheme :=
  line.flatMap Span.graphemes

end CSurvey.Explorer
