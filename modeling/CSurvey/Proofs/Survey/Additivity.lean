import CSurvey.Proofs.Survey.Joining
import CSurvey.Proofs.Survey.Order

/-! # The survey as a sum over nodes

A tree adds the same to every survey: to each list the entries of its own nodes, from the root down,
and to the complexity the word for a count of them. Where sums are checked it has no survey if this
sum is too large for a word. This holds of any tree, whether or not its children fit its kinds. -/

namespace CSurvey

open Node (counted)

namespace Survey

/-! ## What a tree adds -/

theorem add_eq_joined (a : Survey) (n : Node) : a.add n = a.joined (ofNode n) := by
  rw [ofNode, ← add_joined, joined_empty]

/-- A tree has no number of lines. -/
theorem note_lines (a : Survey) (n : Node) : (a.note n).lines = a.lines := by
  unfold note
  split
  all_goals rfl

mutual

theorem add_lines (a : Survey) : (n : Node) → (a.add n).lines = a.lines
  | ⟨kind, value, children, location⟩ => by
    rw [add, addAll_lines _ children, note_lines]

theorem addAll_lines (a : Survey) : (ns : List Node) → (a.addAll ns).lines = a.lines
  | [] => rfl
  | n :: ns => by
    rw [addAll, addAll_lines _ ns, add_lines a n]

end

/-! ## Several trees -/

theorem foldl_add_eq_addAll (a : Survey) (ns : List Node) : ns.foldl add a = a.addAll ns := by
  induction ns generalizing a with
  | nil => rfl
  | cons n ns ih => exact ih (a.add n)

theorem foldlM_add?_eq_addAll? (a : Survey) (ns : List Node) :
    ns.foldlM add? a = a.addAll? ns := by
  induction ns generalizing a with
  | nil => rfl
  | cons n ns ih =>
      rw [List.foldlM_cons, addAll?]
      exact congrArg _ (funext ih)

/-- A program adds what its children add. -/
theorem add_program (a : Survey) (value : Option Node.Value) (ns : List Node)
    (location : Position) : a.add ⟨.program, value, ns, location⟩ = a.addAll ns := rfl

/-- The root of a program does not count, so it wraps nothing. -/
theorem add?_program (a : Survey) (value : Option Node.Value) (ns : List Node)
    (location : Position) : a.add? ⟨.program, value, ns, location⟩ = a.addAll? ns := by
  rw [(add_raises _).checked_eq, (addAll_raises ns).checked_eq, add_program, Node.preorder, counted,
    List.countP_cons]
  rfl

/-! ## Sums -/

/-- A survey is a sum over trees and over their nodes. What a tree adds to a survey is its own
survey: each list goes behind the one that was there, the complexities add up as words, and the
number of lines stays. The lists of a tree are the entries of its nodes from the root down, its
complexity counts the function definitions and the branches among them. Where sums are checked, this
survey is the result exactly if the sum of the numbers has a word, and then the complexities are
these numbers. So trees that are added one after another come to what one program with these
children comes to. -/
theorem add_additive (a : Survey) (root : Node) :
    let count := root.preorder.countP (fun n => n.kind = .functionDefinition) +
      root.preorder.countP (fun n => n.kind.isBranch)
    a.add root = a.joined (ofNode root) ∧ (a.add root).lines = a.lines ∧
      (ofNode root).Lists root.preorder ∧ (ofNode root).complexity = .ofNat count ∧
      a.add? root =
        (if a.complexity.toNat + count < UInt64.size then some (a.add root) else none) ∧
      (a.complexity.toNat + count < UInt64.size → (ofNode root).complexity.toNat = count ∧
        (a.add root).complexity.toNat = a.complexity.toNat + count) ∧
      ∀ (trees : List Node) (value : Option Node.Value) (location : Position),
        trees.foldl add a = a.add ⟨.program, value, trees, location⟩ ∧
          trees.foldlM add? a = a.add? ⟨.program, value, trees, location⟩ := by
  intro count
  have hcount : counted root.preorder = count := Node.counted_eq _
  have hraises := add_raises root
  rw [hcount] at hraises
  refine ⟨add_eq_joined a root, add_lines a root, ofNode_lists root, ?_, hraises.checked_eq a, ?_,
    ?_⟩
  · rw [complexity_ofNode, hcount]
  · intro hroom
    have hfits : counted root.preorder < UInt64.size := by omega
    exact ⟨(toNat_complexity_ofNode hfits).trans hcount, hraises.toNat_of_lt hroom⟩
  · intro trees value location
    rw [foldl_add_eq_addAll, add_program, foldlM_add?_eq_addAll?, add?_program]
    exact ⟨rfl, rfl⟩

/-- A branch without parts and a function without a declarator count too. -/
example : (ofNode ⟨.ifStatement, none, [⟨.functionDefinition, none, [], .start⟩], .start⟩) =
    { functions := [⟨"unknown", "unknown", [], true⟩], complexity := 2 } := by
  decide

/-- Behind the greatest word the count starts from zero again. -/
example : let full : Survey := { complexity := .ofNat (2 ^ 64 - 1) }
    full.add ⟨.ifStatement, none, [], .start⟩ = {} ∧
      full.add? ⟨.ifStatement, none, [], .start⟩ = none := by
  decide

end Survey

end CSurvey
