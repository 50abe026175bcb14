/-!
How a character is drawn: its colour, the colour behind it, and whether it is bold. What a style
leaves open shows what is drawn below.
-/

namespace CSurvey.Explorer

/-- A colour. -/
inductive Color where
  | black
  | rgb (red green blue : Nat)
deriving DecidableEq, Repr

/-- A style, with the parts that it sets. -/
structure Style where
  foreground : Option Color := none
  background : Option Color := none
  bold : Bool := false
deriving DecidableEq, Repr

/-- Two hexadecimal digits. -/
def hexByte (n : Nat) : String :=
  let digits := Nat.toDigits 16 n
  String.ofList (List.replicate (2 - digits.length) '0' ++ digits)

/-- The name of a colour: its own, or its parts in hexadecimal. -/
def Color.text : Color → String
  | .black => "black"
  | .rgb red green blue => "#" ++ hexByte red ++ hexByte green ++ hexByte blue

namespace Style

/-- The plain style, which sets nothing. -/
def none : Style := {}

/-- The style that only sets the colour of the character. -/
def ink (color : Color) : Style := { foreground := some color }

/-- The style that only sets the colour behind the character. -/
def paper (color : Color) : Style := { background := some color }

/-- The style with bold characters. -/
def strong (s : Style) : Style := { s with bold := true }

/-- The style with the given colour behind it. -/
def on (s : Style) (color : Color) : Style := { s with background := some color }

/-- The style drawn on `below`: where it sets nothing, `below` shows. -/
def drawnOn (s below : Style) : Style :=
  ⟨s.foreground <|> below.foreground, s.background <|> below.background, s.bold || below.bold⟩

/-- The parts that are set, with a blank between them. -/
def text (s : Style) : String :=
  let parts := (s.foreground.map fun c => "fg=" ++ c.text).toList
    ++ (s.background.map fun c => "bg=" ++ c.text).toList
    ++ (if s.bold then ["bold"] else [])
  " ".intercalate parts

end Style

/-! ### The colours in use -/

namespace Palette

def text : Color := .rgb 205 214 244
def accent : Color := .rgb 137 180 250
def note : Color := .rgb 250 179 135
def faint : Color := .rgb 108 112 134
def success : Color := .rgb 166 227 161
def failure : Color := .rgb 243 139 168
def keyword : Color := .rgb 137 180 250
def string : Color := .rgb 166 227 161
def number : Color := .rgb 250 179 135
def directive : Color := .rgb 245 194 231
def focusedBorder : Color := .rgb 249 226 175
def border : Color := .rgb 108 112 134
def markedLine : Color := .rgb 50 50 70
def selection : Color := .rgb 69 71 90
def function : Color := .rgb 249 226 175
def type : Color := .rgb 148 226 213

end Palette

/-- A text in one style. -/
structure Span where
  text : String
  style : Style
deriving DecidableEq, Repr

end CSurvey.Explorer
