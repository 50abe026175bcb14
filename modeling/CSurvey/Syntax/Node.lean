import CSurvey.Number.Positional
import CSurvey.Syntax.Kind
import CSurvey.Token.Position

/-!
Syntax trees. A node has a kind, perhaps a value, its children in source order and the place it was
read from. Nothing ties the children to the kind: trees are also made by hand.
-/

namespace CSurvey

/-- What a node carries besides its children. -/
inductive Node.Value where
  | text (text : String)
  | number (value : Binary64)
deriving DecidableEq, Repr

/-- A value as it is shown. -/
def Node.Value.shown : Node.Value → String
  | .text t => t
  | .number x => x.text

/-- A node of a syntax tree. -/
structure Node where
  kind : Node.Kind
  value : Option Node.Value
  children : List Node
  location : Position
deriving Repr

namespace Node

/-- A node with a text as its value. -/
def texted (kind : Kind) (text : String) (location : Position) (children : List Node) : Node :=
  ⟨kind, some (.text text), children, location⟩

/-- A node without a value. -/
def plain (kind : Kind) (location : Position) (children : List Node) : Node :=
  ⟨kind, none, children, location⟩

/-- The node that holds the place of a part that is absent. -/
def absent (location : Position) : Node :=
  plain .empty location []

/-- The text of a node, if its value is one. -/
def text? (n : Node) : Option String :=
  match n.value with
  | some (.text t) => some t
  | _ => none

/-- The number of a node, if its value is one. -/
def number? (n : Node) : Option Binary64 :=
  match n.value with
  | some (.number x) => some x
  | _ => none

/-- The first child, if it has the given kind. -/
def leading? (n : Node) (kind : Kind) : Option Node :=
  n.children.head?.filter fun c => c.kind = kind

mutual

/-- The node and all nodes below it, each before its children. -/
def preorder : Node → List Node
  | ⟨kind, value, children, location⟩ =>
    ⟨kind, value, children, location⟩ :: preorderAll children

/-- The nodes of several trees, tree after tree. -/
def preorderAll : List Node → List Node
  | [] => []
  | n :: ns => n.preorder ++ preorderAll ns

end

mutual

/-- How many nodes a tree has. -/
def count : Node → Nat
  | ⟨_, _, children, _⟩ => 1 + countAll children

/-- How many nodes several trees have together. -/
def countAll : List Node → Nat
  | [] => 0
  | n :: ns => n.count + countAll ns

end

mutual

theorem length_preorder : (n : Node) → n.preorder.length = n.count
  | ⟨_, _, children, _⟩ => by
    simp [preorder, count, length_preorderAll children, Nat.add_comm]

theorem length_preorderAll : (ns : List Node) → (preorderAll ns).length = countAll ns
  | [] => rfl
  | n :: ns => by
    simp [preorderAll, countAll, length_preorder n, length_preorderAll ns]

end

mutual

/-- Whether a part of the tree could not be read. -/
def hasErrors : Node → Bool
  | ⟨kind, _, children, _⟩ => kind = .error || anyHasErrors children

/-- Whether a part of one of the trees could not be read. -/
def anyHasErrors : List Node → Bool
  | [] => false
  | n :: ns => n.hasErrors || anyHasErrors ns

end

mutual

/-- Equality of trees is decided node by node. -/
def decideEq : (a b : Node) → Decidable (a = b)
  | ⟨kind, value, children, location⟩, ⟨kind', value', children', location'⟩ =>
    match decEq kind kind', decEq value value', decideEqAll children children',
        decEq location location' with
    | .isTrue h₁, .isTrue h₂, .isTrue h₃, .isTrue h₄ => .isTrue (by rw [h₁, h₂, h₃, h₄])
    | .isFalse h, _, _, _ => .isFalse fun e => h (Node.mk.inj e).1
    | _, .isFalse h, _, _ => .isFalse fun e => h (Node.mk.inj e).2.1
    | _, _, .isFalse h, _ => .isFalse fun e => h (Node.mk.inj e).2.2.1
    | _, _, _, .isFalse h => .isFalse fun e => h (Node.mk.inj e).2.2.2

/-- Equality of lists of trees. -/
def decideEqAll : (as bs : List Node) → Decidable (as = bs)
  | [], [] => .isTrue rfl
  | [], _ :: _ => .isFalse nofun
  | _ :: _, [] => .isFalse nofun
  | a :: as, b :: bs =>
    match decideEq a b, decideEqAll as bs with
    | .isTrue h₁, .isTrue h₂ => .isTrue (by rw [h₁, h₂])
    | .isFalse h, _ => .isFalse fun e => h (List.cons.inj e).1
    | _, .isFalse h => .isFalse fun e => h (List.cons.inj e).2

end

instance : DecidableEq Node := decideEq

end Node

end CSurvey
