import CSurvey.Syntax.Render

/-! # Trees without places

Two trees are the same up to the places they were read from if they are equal once the places are
taken off. -/

namespace CSurvey.Node

mutual

/-- The tree with every node at the start of a text. -/
def unplaced : Node → Node
  | ⟨kind, value, children, _⟩ => ⟨kind, value, unplacedAll children, .start⟩

/-- The trees with every node at the start of a text. -/
def unplacedAll : List Node → List Node
  | [] => []
  | n :: ns => n.unplaced :: unplacedAll ns

end

@[simp] theorem unplaced_kind (n : Node) : n.unplaced.kind = n.kind := by
  obtain ⟨kind, value, children, location⟩ := n
  rfl

@[simp] theorem unplaced_value (n : Node) : n.unplaced.value = n.value := by
  obtain ⟨kind, value, children, location⟩ := n
  rfl

theorem unplacedAll_eq_map (ns : List Node) : unplacedAll ns = ns.map unplaced := by
  induction ns with
  | nil => rfl
  | cons n ns ih => rw [unplacedAll, ih, List.map_cons]

@[simp] theorem unplaced_texted (kind : Kind) (text : String) (location : Position)
    (children : List Node) :
    (texted kind text location children).unplaced =
      texted kind text .start (children.map unplaced) := by
  simp [texted, unplaced, unplacedAll_eq_map]

@[simp] theorem unplaced_plain (kind : Kind) (location : Position) (children : List Node) :
    (plain kind location children).unplaced = plain kind .start (children.map unplaced) := by
  simp [plain, unplaced, unplacedAll_eq_map]

@[simp] theorem unplaced_mk (kind : Kind) (value : Option Value) (location : Position)
    (children : List Node) :
    unplaced ⟨kind, value, children, location⟩ =
      ⟨kind, value, children.map unplaced, .start⟩ := by
  simp [unplaced, unplacedAll_eq_map]

mutual

/-- The text of a tree does not show its places. -/
theorem render_unplaced : (n : Node) → n.unplaced.render = n.render
  | ⟨kind, value, children, location⟩ => by
    rw [unplaced, render, render, renderAll_unplacedAll children]

theorem renderAll_unplacedAll : (ns : List Node) → renderAll (unplacedAll ns) = renderAll ns
  | [] => rfl
  | n :: ns => by
    rw [unplacedAll, renderAll, renderAll, render_unplaced n, renderAll_unplacedAll ns,
      unplaced_kind]

end

mutual

theorem preorder_unplaced : (n : Node) → n.unplaced.preorder = n.preorder.map unplaced
  | ⟨kind, value, children, location⟩ => by
    rw [unplaced, preorder, preorder, preorderAll_unplacedAll children]
    simp [unplaced]

theorem preorderAll_unplacedAll :
    (ns : List Node) → preorderAll (unplacedAll ns) = (preorderAll ns).map unplaced
  | [] => rfl
  | n :: ns => by
    rw [unplacedAll, preorderAll, preorderAll, preorder_unplaced n, preorderAll_unplacedAll ns,
      List.map_append]

end

end CSurvey.Node
