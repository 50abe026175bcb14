import CSurvey.Explorer.Grapheme

/-!
Rectangles of terminal cells. A grid is a list of rows of one length, and panes are put together
side by side and one above the other. A character of two cells stands in the first of them, and the
second stays blank.
-/

namespace CSurvey.Explorer

/-- A cell of the terminal: what it shows and how. -/
structure Cell where
  text : String
  style : Style
deriving DecidableEq, Repr

/-- A row of cells. -/
abbrev Row := List Cell

/-- Rows of cells, from the top. -/
abbrev Grid := List Row

namespace Cell

/-- A cell without a character. -/
def blank (style : Style) : Cell := ⟨" ", style⟩

/-- The cell with a style drawn over its own. -/
def patch (style : Style) (cell : Cell) : Cell :=
  { cell with style := style.drawnOn cell.style }

/-- The cell with a grapheme drawn on what it shows. -/
def mark (g : Grapheme) (cell : Cell) : Cell :=
  ⟨cell.text ++ g.text, g.style.drawnOn cell.style⟩

end Cell

namespace Row

/-- A row of blank cells. -/
def blank (width : Nat) (style : Style) : Row :=
  List.replicate width (.blank style)

/-- A row as spans: neighbours of one style together. -/
def spans (row : Row) : List Span :=
  row.foldr
    (fun cell spans =>
      match spans with
      | next :: rest =>
        if next.style = cell.style then ⟨cell.text ++ next.text, cell.style⟩ :: rest
        else ⟨cell.text, cell.style⟩ :: next :: rest
      | [] => [⟨cell.text, cell.style⟩])
    []

/-- The row filled up to a width. A longer row stays as it is. -/
def fill (width : Nat) (style : Style) (row : Row) : Row :=
  row ++ blank (width - row.length) style

theorem length_fill (width : Nat) (style : Style) (row : Row) :
    (fill width style row).length = max width row.length := by
  simp [fill, blank]
  omega

end Row

/-- The cells of a grapheme on a background. -/
def Grapheme.cells (ground : Style) (g : Grapheme) : Row :=
  ⟨g.text, g.style.drawnOn ground⟩ :: Row.blank (g.width - 1) ground

theorem Grapheme.length_cells (ground : Style) {g : Grapheme} (h : 0 < g.width) :
    (g.cells ground).length = g.width := by
  simp [cells, Row.blank]
  omega

/-! ### Lines of text -/

/-- The graphemes of a line that fit into a width. One that is wider than the width itself is left
out; the first that does not fit any more ends the line. -/
def truncate (width : Nat) (gs : List Grapheme) : List Grapheme :=
  go width gs
where
  /-- As many graphemes as fit into the cells left. -/
  go (left : Nat) : List Grapheme → List Grapheme
    | [] => []
    | g :: gs =>
      if width < g.width then go left gs
      else if left < g.width then []
      else g :: go (left - g.width) gs

/-- A line of text as cells. Graphemes that take no cell are not drawn. -/
def textCells (ground : Style) (gs : List Grapheme) : Row :=
  (gs.filter fun g => 0 < g.width).flatMap (Grapheme.cells ground)

/-- A line of text as a row of the given width. A grapheme at the end may be wider than what is left
of the row, and is not drawn beyond it. -/
def textRow (width : Nat) (ground : Style) (gs : List Grapheme) : Row :=
  Row.fill width ground ((textCells ground gs).take width)

theorem length_textRow (width : Nat) (ground : Style) (gs : List Grapheme) :
    (textRow width ground gs).length = width := by
  rw [textRow, Row.length_fill, List.length_take]
  omega

/-- A line of text at the right end of a row. -/
def rightRow (width : Nat) (ground : Style) (gs : List Grapheme) : Row :=
  let cells := textCells ground gs
  .blank (width - cells.length) ground ++ cells

/-! ### Items of lists -/

/-- Draws graphemes behind cells that are drawn already, which are given from the last one, into
the cells left. A grapheme that takes no cell is drawn on the cell before it; the first that does
not fit ends the text. -/
def drawBehind (left : Nat) (drawn : Row) : List Grapheme → Row
  | [] => drawn
  | g :: gs =>
    if left < g.width then drawn
    else if g.width = 0 then drawBehind left (drawn.modifyHead (Cell.mark g)) gs
    else drawBehind (left - g.width) ((g.cells .none).reverse ++ drawn) gs

theorem length_drawBehind_le (left : Nat) (drawn : Row) (gs : List Grapheme) :
    (drawBehind left drawn gs).length ≤ drawn.length + left := by
  induction gs generalizing left drawn with
  | nil => simp [drawBehind]
  | cons g gs ih =>
    rw [drawBehind]
    split
    · omega
    · split
      · simpa using ih left (drawn.modifyHead (Cell.mark g))
      · have h := ih (left - g.width) ((g.cells .none).reverse ++ drawn)
        have hg := g.length_cells .none (by omega)
        simp only [List.length_append, List.length_reverse] at h
        omega

/-- Graphemes of which those at the front that take no cell are put into the first that takes
one. -/
def withFront : List Grapheme → List Grapheme
  | [] => []
  | g :: gs =>
    if 0 < g.width then g :: gs
    else
      match withFront gs with
      | first :: rest => { first with chars := g.chars ++ first.chars } :: rest
      | [] => [g]

/-- A line of spans as cells, as far as there are cells left. Each span is drawn by itself, and one
that takes no cell is not drawn. -/
def itemCells (left : Nat) : List Span → Row
  | [] => []
  | s :: spans =>
    let width := widthOf s.graphemes
    if left = 0 then []
    else if width = 0 then itemCells left spans
    else (drawBehind left [] (withFront s.graphemes)).reverse ++ itemCells (left - width) spans

/-- An item of a list as a row. -/
def itemRow (width : Nat) (line : List Span) : Row :=
  (itemCells width line).fill width .none

/-! ### Panes -/

/-- Two grids side by side. -/
def beside (left right : Grid) : Grid :=
  List.zipWith (· ++ ·) left right

/-- The top edge of a frame, with a title in it. -/
def topEdge (width : Nat) (style : Style) (title : String) : Row :=
  if width = 0 then []
  else if width = 1 then [⟨"┌", style⟩]
  else
    let line := textCells style (truncate (width - 2) (Span.graphemes ⟨title, .none⟩))
    ⟨"┌", style⟩ :: line ++ List.replicate (width - 2 - line.length) ⟨"─", style⟩ ++ [⟨"┐", style⟩]

/-- The bottom edge of a frame. -/
def bottomEdge (width : Nat) (style : Style) : Row :=
  if width = 0 then []
  else if width = 1 then [⟨"└", style⟩]
  else
    ⟨"└", style⟩ :: List.replicate (width - 2) ⟨"─", style⟩ ++ [⟨"┘", style⟩]

/-- A row between the sides of a frame. A frame of one column has one side only. -/
def sideEdges (width : Nat) (style : Style) (row : Row) : Row :=
  if width = 0 then []
  else
    let side : Cell := ⟨"│", style⟩
    (side :: row ++ [side]).take width

/-- A frame with a title around rows; it has the given width and height. Rows that are missing are
blank. -/
def framed (width height : Nat) (style : Style) (title : String) (rows : Grid) : Grid :=
  match height with
  | 0 => []
  | 1 => [topEdge width style title]
  | inner + 2 =>
    let rows := rows.take inner ++ List.replicate (inner - rows.length) (.blank (width - 2) .none)
    topEdge width style title :: rows.map (sideEdges width style) ++ [bottomEdge width style]

theorem length_framed (width height : Nat) (style : Style) (title : String) (rows : Grid) :
    (framed width height style title rows).length = height := by
  unfold framed
  split
  · rfl
  · rfl
  · simp
    omega

end CSurvey.Explorer
