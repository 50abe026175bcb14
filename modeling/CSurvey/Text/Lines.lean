/-!
The lines of a text, as a reader of the file counts them and as a display shows them.
-/

namespace CSurvey.Text

/-- The number of lines: one more than there are newlines, so a final newline opens a last empty
line. -/
def lineCount (text : List Char) : Nat :=
  text.count '\n' + 1

/-- A line without the carriage return at its end. -/
def dropReturn (line : List Char) : List Char :=
  if line.getLast? = some '\r' then line.dropLast else line

/-- Cuts a text into lines, where `begun` holds the characters of the line begun, last first. -/
def linesFrom (begun : List Char) : List Char → List (List Char)
  | [] => if begun.isEmpty then [] else [begun.reverse]
  | c :: cs =>
    if c = '\n' then dropReturn begun.reverse :: linesFrom [] cs
    else linesFrom (c :: begun) cs

/-- The lines to display. A newline ends a line, together with one carriage return before it; what
follows the last newline is a line unless it is empty. -/
def lines (text : List Char) : List (List Char) :=
  linesFrom [] text

/-- The text with each newline shown as the mark U+23CE. -/
def markNewlines (text : String) : String :=
  String.ofList (text.toList.map fun c => if c = '\n' then '⏎' else c)

/-- `text` repeated `n` times. -/
def repeated (text : String) (n : Nat) : String :=
  String.join (List.replicate n text)

/-- `text` with blanks on its right up to `width` characters. -/
def padRight (width : Nat) (text : String) : String :=
  text ++ String.ofList (List.replicate (width - text.length) ' ')

/-- `text` with blanks on its left up to `width` characters. -/
def padLeft (width : Nat) (text : String) : String :=
  String.ofList (List.replicate (width - text.length) ' ') ++ text

end CSurvey.Text
