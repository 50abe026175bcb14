import CSurvey.Explorer.Highlight
import CSurvey.Explorer.Scroll
import CSurvey.Findings
import CSurvey.Syntax.Outline

/-!
The state of the explorer and what keys do to it. Four panes show the source, the tokens, the tree
and the survey; one of them has the focus, and keys move the row that is marked there. Rows are
numbers of 64 bits, and moves stop at both ends.
-/

namespace CSurvey.Explorer

/-- The panes, in the order of the focus. -/
inductive Pane where
  | source | tokens | tree | survey
deriving DecidableEq, Repr

namespace Pane

/-- The pane that gets the focus next. -/
def next : Pane → Pane
  | .source => .tokens
  | .tokens => .tree
  | .tree => .survey
  | .survey => .source

/-- The pane that had the focus before. -/
def previous : Pane → Pane
  | .source => .survey
  | .tokens => .source
  | .tree => .tokens
  | .survey => .tree

/-- The name of a pane. -/
def name : Pane → String
  | .source => "Source"
  | .tokens => "Tokens"
  | .tree => "Ast"
  | .survey => "Analysis"

end Pane

/-- A key of the keyboard. -/
inductive Key where
  | escape | tab | backTab | up | down | left | right | pageUp | pageDown | home | toEnd | enter
  | char (c : Char)
deriving DecidableEq, Repr

/-- The greatest number of a row. -/
def greatestRow : Nat := UInt64.size - 1

/-- The rows that a page moves over. -/
def pageRows : Nat := 10

/-- The rows that a key moves over, downwards if positive. The moves to the ends are the greatest
there are: they go over as many rows as a signed number of 64 bits can say. -/
def Key.move? : Key → Option Int
  | .up => some (-1)
  | .down => some 1
  | .pageUp => some (-(pageRows : Int))
  | .pageDown => some pageRows
  | .home => some Int64.minValue.toInt
  | .toEnd => some Int64.maxValue.toInt
  | _ => none

/-- The row that lies `delta` rows from `row` among `count` rows, or the end that is nearest. -/
def moveRow (row : Nat) (delta : Int) (count : Nat) : Nat :=
  let moved := if delta < 0 then row - delta.natAbs else min (row + delta.toNat) greatestRow
  min moved (count - 1)

theorem moveRow_le (row : Nat) (delta : Int) (count : Nat) : moveRow row delta count ≤ count - 1 :=
  Nat.min_le_right _ _

/-- The state of the explorer. -/
structure State where
  findings : Findings
  paintedLines : List (List Glyph)
  tokens : List Token
  outline : List OutlineLine
  focus : Pane
  /-- The marked line of the source, counted from one. -/
  line : Nat
  sourceOffset : Nat
  tokenPlace : ListPlace
  treePlace : ListPlace
  surveyScroll : Nat
  quit : Bool
  status : String
deriving Repr

namespace State

/-- The explorer of an inspected source, with `shown` as the text of its source pane. -/
def start (shown : String) (findings : Findings) : State where
  findings := findings
  paintedLines := highlight shown findings.tokens
  tokens := findings.tokens.filter Token.isVisible
  outline := findings.root.outline
  focus := .source
  line := 1
  sourceOffset := 0
  tokenPlace := .start
  treePlace := .start
  surveyScroll := 0
  quit := false
  status := findings.diagnostics.head?.getD "Ready!"

/-- Moves the marked line of the source. -/
def moveLine (s : State) (delta : Int) : State :=
  let line := moveRow (s.line - 1) delta s.paintedLines.length + 1
  { s with line, status := s!"Line {line}" }

/-- Moves the selected token, and marks its line. -/
def moveToken (s : State) (delta : Int) : State :=
  let row := moveRow (s.tokenPlace.selected.getD 0) delta s.tokens.length
  let s := { s with tokenPlace := s.tokenPlace.select row }
  match s.tokens[row]? with
  | some t =>
    { s with line := t.location.line, status := t.describe ++ " at " ++ t.location.text }
  | none => s

/-- Moves the selected row of the tree, and marks its line. -/
def moveNode (s : State) (delta : Int) : State :=
  let row := moveRow (s.treePlace.selected.getD 0) delta s.outline.length
  let s := { s with treePlace := s.treePlace.select row }
  match s.outline[row]? with
  | some r => { s with line := r.line, status := s!"{r.kind.name} (line {r.line})" }
  | none => s

/-- Scrolls the survey. Its length is only known when it is drawn. -/
def scrollSurvey (s : State) (delta : Int) : State :=
  { s with surveyScroll := moveRow s.surveyScroll delta greatestRow }

/-- Moves the marked row of the pane that has the focus. -/
def move (s : State) (delta : Int) : State :=
  match s.focus with
  | .source => s.moveLine delta
  | .tokens => s.moveToken delta
  | .tree => s.moveNode delta
  | .survey => s.scrollSurvey delta

/-- The state after a key. Keys without a meaning change nothing. -/
def press (s : State) (key : Key) : State :=
  match key with
  | .escape | .char 'q' | .char 'Q' => { s with quit := true }
  | .tab => { s with focus := s.focus.next }
  | .backTab => { s with focus := s.focus.previous }
  | key =>
    match key.move? with
    | some delta => s.move delta
    | none => s

/-- The states before the first key and after each key. -/
def run (s : State) : List Key → List State
  | [] => [s]
  | key :: keys => s :: run (s.press key) keys

end State

end CSurvey.Explorer
