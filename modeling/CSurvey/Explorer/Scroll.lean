/-!
Where windows stand over longer contents. A source window follows a line; a list window shows the
selected row. Both move no further than they have to.
-/

namespace CSurvey.Explorer

/-- The first row to show so that `line`, counted from one, is among `height` rows of `total`, when
`offset` was the first row before. The window does not reach behind the last row more than it
must. -/
def scrollTo (offset line height total : Nat) : Nat :=
  let row := line - 1
  let moved :=
    if row < offset then row
    else if offset + height ≤ row then row + 1 - height
    else offset
  min moved (total - height)

theorem scrollTo_le (offset line height total : Nat) :
    scrollTo offset line height total ≤ total - height :=
  Nat.min_le_right _ _

/-- A list with a selected row, and the first row that is shown. -/
structure ListPlace where
  selected : Option Nat
  offset : Nat
deriving DecidableEq, Repr

namespace ListPlace

/-- A list with its first row selected. -/
def start : ListPlace := ⟨some 0, 0⟩

/-- The list with another row selected. -/
def select (p : ListPlace) (row : Nat) : ListPlace := { p with selected := some row }

/-- The first row to show and how many rows fit, when `height` rows fit into the window and the
list has `total`: the window moves only if the selected row is outside. -/
def window (p : ListPlace) (height total : Nat) : Nat × Nat :=
  let first := min p.offset (total - 1)
  let behind := first + min height (total - first)
  match p.selected with
  | none => (first, behind - first)
  | some row =>
    if behind ≤ row then (max first (row + 1 - height), row + 1 - max first (row + 1 - height))
    else if row < first then (row, min behind (row + height) - row)
    else (first, behind - first)

/-- The place after the list has been drawn into a window of `height` rows. A selection behind the
last row becomes the last row, and the selection of an empty list is dropped. A window without rows
changes nothing. -/
def drawn (p : ListPlace) (height total : Nat) : ListPlace :=
  if height = 0 then p
  else if total = 0 then ⟨none, 0⟩
  else
    let p := { p with selected := p.selected.map fun row => min row (total - 1) }
    { p with offset := (p.window height total).1 }

end ListPlace

end CSurvey.Explorer
