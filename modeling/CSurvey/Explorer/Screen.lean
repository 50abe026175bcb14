import CSurvey.Explorer.Grid
import CSurvey.Explorer.State
import CSurvey.Explorer.Summary
import CSurvey.Explorer.Wrap

/-!
The screen of the explorer. The left part holds the source above the survey, the right part the
tokens above the tree, and a status row closes the screen. Drawing moves the windows of the panes
to where their marked rows are, which the state keeps.
-/

namespace CSurvey.Explorer

/-- A share of a length in hundredths, to the nearest whole number and half a one upwards. -/
def percent (share length : Nat) : Nat :=
  (share * length + 50) / 100

/-- The style of the frame of a pane. -/
def frameStyle (focused : Bool) : Style :=
  if focused then (Style.ink Palette.focusedBorder).strong else .ink Palette.border

/-- The style of the selected row of a list. -/
def selectionStyle : Style :=
  (Style.paper Palette.selection).strong

/-! ### The source -/

/-- A painted line as spans of one style each. Carriage returns are dropped, and a tab takes one
cell. -/
def glyphSpans (line : List Glyph) : List Span :=
  let shown := line.filter fun g => g.char ≠ '\r'
  shown.foldr
    (fun g spans =>
      let text := String.singleton (if g.char = '\t' then ' ' else g.char)
      match spans with
      | next :: rest =>
        if next.style = g.style then ⟨text ++ next.text, g.style⟩ :: rest
        else ⟨text, g.style⟩ :: next :: rest
      | [] => [⟨text, g.style⟩])
    []

/-- A line of the source with its number. The marked line has an arrow and another background. -/
def sourceLine (marked number : Nat) (line : List Glyph) : List Span :=
  let spans := glyphSpans line
  let numberText := Text.padLeft 4 (toString number)
  if number = marked then
    ⟨"▶" ++ numberText ++ " ", (Style.ink Palette.note).strong⟩
      :: spans.map fun s => { s with style := s.style.on Palette.markedLine }
  else ⟨" " ++ numberText ++ " ", .ink Palette.faint⟩ :: spans

/-- The lines of the source that a window over it shows. -/
def sourceRows (s : State) (offset height width : Nat) : Grid :=
  let numbered := s.paintedLines.zipIdx 1
  ((numbered.drop offset).take height).map fun (line, number) =>
    textRow width .none (truncate width (lineGraphemes (sourceLine s.line number line)))

/-- The rows of the source pane that its window shows; there is always one. -/
def sourceHeight (height : Nat) : Nat :=
  max 1 (height - 2)

/-! ### The survey -/

/-- The rows of the survey from the given one on, as far as they are shown. -/
def surveyRows (s : State) (scroll width height : Nat) : Grid :=
  let rows := wrapLines width ((summary s.findings).map lineGraphemes)
  ((rows.drop scroll).take height).map (textRow width .none)

/-- The furthest that the survey is scrolled: to its last line. -/
def clampScroll (s : State) (scroll : Nat) : Nat :=
  min scroll ((summary s.findings).length - 1)

/-! ### The lists -/

/-- A token as a row: its place, its kind and its text. -/
def tokenLine (t : Token) : List Span :=
  let place := Text.padLeft 4 (toString t.location.line) ++ ":"
    ++ Text.padRight 3 (toString t.location.column) ++ " "
  [⟨place, .ink Palette.faint⟩, ⟨Text.padRight 13 t.kind.name ++ " ", .ink Palette.type⟩,
    ⟨Text.markNewlines t.text, .ink Palette.text⟩]

/-- How a row of the tree is drawn. -/
def outlineStyle (kind : Node.Kind) : Style :=
  match kind with
  | .error => (Style.ink Palette.failure).strong
  | .comment => .ink Palette.faint
  | .functionDefinition | .functionDeclaration => .ink Palette.function
  | .inclusion | .macroDefinition | .directive => .ink Palette.directive
  | kind =>
    if kind.isBranch then .ink Palette.keyword
    else if kind.isExpression then .ink Palette.text
    else .ink Palette.type

/-- A row of the tree. -/
def outlineSpans (row : OutlineLine) : List Span :=
  [⟨row.indent, .none⟩, ⟨row.label, outlineStyle row.kind⟩]

/-- The rows of a list that its window shows, with the selected one marked. -/
def listRows {α : Type} (items : List α) (line : α → List Span) (place : ListPlace)
    (width height : Nat) : Grid :=
  if items.isEmpty || width = 0 || height = 0 then []
  else
    let (first, count) := place.window height items.length
    (((items.zipIdx).drop first).take count).map fun (item, index) =>
      let row := itemRow width (line item)
      if place.selected = some index then row.map (Cell.patch selectionStyle) else row

/-! ### The status row -/

/-- The left half of the status row: the marked line and the last message. -/
def statusLeft (s : State) : List Span :=
  let hasErrors := !s.findings.diagnostics.isEmpty
  let ground := Style.paper Palette.markedLine
  [⟨s!" Line {s.line}/{s.paintedLines.length} ",
      ((Style.ink .black).on (if hasErrors then Palette.failure else Palette.accent)).strong⟩,
    ⟨" | ", { ground with foreground := some Palette.faint }⟩,
    ⟨s!" {s.status} ",
      { ground with foreground := some (if hasErrors then Palette.failure else Palette.text) }⟩]

/-- The right half of the status row: keys, and how many problems there are. -/
def statusRight (errors : Nat) : List Span :=
  let key : Style := (Style.ink .black).on Palette.faint
  let words : Style := (Style.ink Palette.text).on Palette.markedLine
  let bar : Style := (Style.ink Palette.faint).on Palette.markedLine
  let closing : Span :=
    if errors = 0 then ⟨" OK ", ((Style.ink .black).on Palette.success).strong⟩
    else
      let plural := if errors = 1 then "" else "S"
      ⟨s!" {errors} ERROR" ++ plural ++ " ", ((Style.ink .black).on Palette.failure).strong⟩
  [⟨" ⇥ ", key⟩, ⟨" focus ", words⟩, ⟨"│", bar⟩, ⟨" ", words⟩,
    ⟨" ↑/↓ ", key⟩, ⟨" move ", words⟩, ⟨"│", bar⟩, ⟨" ", words⟩,
    ⟨" PgUp/PgDn ", key⟩, ⟨" page ", words⟩, ⟨"│", bar⟩, ⟨" ", words⟩,
    ⟨"q", key⟩, ⟨" quit ", words⟩, ⟨"│", bar⟩, closing]

/-- The status row. -/
def statusRow (s : State) (width : Nat) : Row :=
  let left := percent 50 width
  let right := width - left
  let ground := Style.paper Palette.markedLine
  textRow left ground (truncate left (lineGraphemes (statusLeft s)))
    ++ rightRow right ground
        (truncate right (lineGraphemes (statusRight s.findings.diagnostics.length)))

/-! ### The whole screen -/

/-- The sizes of the panes on a screen of a given size. -/
structure Layout where
  leftWidth : Nat
  rightWidth : Nat
  sourceHeight : Nat
  surveyHeight : Nat
  tokensHeight : Nat
  treeHeight : Nat
deriving DecidableEq, Repr

/-- The layout of a screen. Its last row is the status row. -/
def Layout.ofSize (width height : Nat) : Layout :=
  let panes := height - 1
  let left := percent 55 width
  let source := percent 70 panes
  let tokens := percent 50 panes
  ⟨left, width - left, source, panes - source, tokens, panes - tokens⟩

/-- The rows that a list in a frame of the given size can show. -/
def listHeight (width height : Nat) : Nat :=
  if width ≤ 2 then 0 else height - 2

namespace State

/-- The state after it has been drawn: windows stand where they show the marked rows. -/
def settled (s : State) (l : Layout) : State :=
  { s with
    sourceOffset :=
      scrollTo s.sourceOffset s.line (Explorer.sourceHeight l.sourceHeight) s.paintedLines.length
    surveyScroll := clampScroll s s.surveyScroll
    tokenPlace := s.tokenPlace.drawn (listHeight l.rightWidth l.tokensHeight) s.tokens.length
    treePlace := s.treePlace.drawn (listHeight l.rightWidth l.treeHeight) s.outline.length }

/-- The greatest scroll that a terminal takes. -/
def greatestScroll : Nat := UInt16.size - 1

/-- The panes of a settled state, each in its frame. -/
def panes (s : State) (l : Layout) : Grid :=
  let leftInner := l.leftWidth - 2
  let rightInner := l.rightWidth - 2
  let source := framed l.leftWidth l.sourceHeight (frameStyle (s.focus = .source)) " Source Code "
    (sourceRows s s.sourceOffset (Explorer.sourceHeight l.sourceHeight) leftInner)
  let survey := framed l.leftWidth l.surveyHeight (frameStyle (s.focus = .survey))
    " Analysis "
    (surveyRows s (min s.surveyScroll greatestScroll) leftInner (l.surveyHeight - 2))
  let tokens := framed l.rightWidth l.tokensHeight (frameStyle (s.focus = .tokens))
    s!" Tokens ({s.tokens.length}) "
    (listRows s.tokens tokenLine s.tokenPlace rightInner (l.tokensHeight - 2))
  let tree := framed l.rightWidth l.treeHeight (frameStyle (s.focus = .tree)) " Syntax Tree "
    (listRows s.outline outlineSpans s.treePlace rightInner (l.treeHeight - 2))
  beside (source ++ survey) (tokens ++ tree)

/-- Draws the screen. -/
def draw (s : State) (width height : Nat) : Grid × State :=
  let l := Layout.ofSize width height
  let s := s.settled l
  let status := if height = 0 then [] else [statusRow s width]
  (s.panes l ++ status, s)

/-- Draws the screen before the first key and after each key, and gives the state in the end. -/
def play (s : State) (width height : Nat) : List Key → List Grid × State
  | [] =>
    let (grid, s) := s.draw width height
    ([grid], s)
  | key :: keys =>
    let (grid, s) := s.draw width height
    let (grids, last) := (s.press key).play width height keys
    (grid :: grids, last)

end State

end CSurvey.Explorer
