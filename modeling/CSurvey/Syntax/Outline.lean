import CSurvey.Syntax.Node
import CSurvey.Text.Lines

/-!
The outline of a tree: a row a node, each before the rows of its children, with the depth of the
node. Written out, a row is indented by two blanks a level.
-/

namespace CSurvey

/-- A row of an outline. -/
structure OutlineLine where
  depth : Nat
  kind : Node.Kind
  label : String
  line : Nat
deriving DecidableEq, Repr

namespace Node

/-- The kind and, if there is one, the value of a node, on one line. -/
def label (kind : Kind) (value : Option Value) : String :=
  match value with
  | some v => kind.name ++ " " ++ Text.markNewlines v.shown
  | none => kind.name

mutual

/-- The rows of a tree whose root has the given depth. -/
def outlineFrom (depth : Nat) : Node → List OutlineLine
  | ⟨kind, value, children, location⟩ =>
    ⟨depth, kind, label kind value, location.line⟩ :: outlineAll (depth + 1) children

/-- The rows of several trees of one depth. -/
def outlineAll (depth : Nat) : List Node → List OutlineLine
  | [] => []
  | n :: ns => n.outlineFrom depth ++ outlineAll depth ns

end

/-- The outline of a tree. -/
def outline (n : Node) : List OutlineLine :=
  n.outlineFrom 0

mutual

theorem length_outlineFrom (depth : Nat) :
    (n : Node) → (n.outlineFrom depth).length = n.count
  | ⟨_, _, children, _⟩ => by
    simp [outlineFrom, count, length_outlineAll (depth + 1) children, Nat.add_comm]

theorem length_outlineAll (depth : Nat) :
    (ns : List Node) → (outlineAll depth ns).length = countAll ns
  | [] => rfl
  | n :: ns => by
    simp [outlineAll, countAll, length_outlineFrom depth n, length_outlineAll depth ns]

end

/-- An outline has a row for each node. -/
theorem length_outline (n : Node) : n.outline.length = n.count :=
  length_outlineFrom 0 n

end Node

namespace OutlineLine

/-- The blanks before a row. -/
def indent (row : OutlineLine) : String :=
  Text.repeated "  " row.depth

/-- A row as a line of text. -/
def text (row : OutlineLine) : String :=
  row.indent ++ row.label

end OutlineLine

end CSurvey
