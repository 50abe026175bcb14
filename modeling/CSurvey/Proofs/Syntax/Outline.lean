import CSurvey.Syntax.Outline
import Mathlib.Data.List.Chain

/-! # The rows of an outline

Each row stands for a node of the tree, and the depths of the rows are those of a walk through the
tree from its root: a step leads down by one level at most. -/

namespace CSurvey.Node

mutual

theorem mem_outlineFrom {row : OutlineLine} {depth : Nat} :
    (n : Node) → row ∈ n.outlineFrom depth →
      ∃ m ∈ n.preorder, row.kind = m.kind ∧ row.line = m.location.line ∧
        row.label = label m.kind m.value
  | ⟨kind, value, children, location⟩, h => by
    rcases List.mem_cons.mp h with rfl | h
    · exact ⟨_, List.mem_cons_self .., rfl, rfl, rfl⟩
    · obtain ⟨m, hm, hrow⟩ := mem_outlineAll children h
      exact ⟨m, List.mem_cons_of_mem _ hm, hrow⟩

theorem mem_outlineAll {row : OutlineLine} {depth : Nat} :
    (ns : List Node) → row ∈ outlineAll depth ns →
      ∃ m ∈ preorderAll ns, row.kind = m.kind ∧ row.line = m.location.line ∧
        row.label = label m.kind m.value
  | n :: ns, h => by
    rcases List.mem_append.mp h with h | h
    · obtain ⟨m, hm, hrow⟩ := mem_outlineFrom n h
      exact ⟨m, List.mem_append_left _ hm, hrow⟩
    · obtain ⟨m, hm, hrow⟩ := mem_outlineAll ns h
      exact ⟨m, List.mem_append_right _ hm, hrow⟩

end

/-! ## Depths -/

/-- Whether a row of one depth may follow a row of another one: it is below the root, and no more
than one level further down. -/
def StepsTo (above below : Nat) : Prop :=
  1 ≤ below ∧ below ≤ above + 1

mutual

/-- The rows of a tree start at its depth, and all others are further down. -/
theorem depths_outlineFrom (depth : Nat) :
    (n : Node) → ∃ depths, (n.outlineFrom depth).map OutlineLine.depth = depth :: depths ∧
      List.IsChain StepsTo (depth :: depths) ∧ ∀ d ∈ depths, depth < d
  | ⟨kind, value, children, location⟩ => by
    obtain ⟨hhead, hchain, hbelow⟩ := depths_outlineAll (Nat.le_add_left 1 depth) children
    refine ⟨_, rfl, List.isChain_cons.mpr ⟨fun d hd => ?_, hchain⟩, hbelow⟩
    rw [hhead d hd]
    exact ⟨Nat.le_add_left .., Nat.le_refl _⟩

theorem depths_outlineAll {depth : Nat} (hdepth : 1 ≤ depth) :
    (ns : List Node) →
      (∀ d ∈ ((outlineAll depth ns).map OutlineLine.depth).head?, d = depth) ∧
        List.IsChain StepsTo ((outlineAll depth ns).map OutlineLine.depth) ∧
        ∀ d ∈ (outlineAll depth ns).map OutlineLine.depth, depth ≤ d
  | [] => ⟨by simp [outlineAll], .nil, by simp [outlineAll]⟩
  | n :: ns => by
    obtain ⟨depths, hfirst, hchain, hbelow⟩ := depths_outlineFrom depth n
    obtain ⟨hhead, hchain', hbelow'⟩ := depths_outlineAll hdepth ns
    have hall : ∀ d ∈ depth :: depths, depth ≤ d :=
      List.forall_mem_cons.mpr ⟨Nat.le_refl _, fun d hd => Nat.le_of_lt (hbelow d hd)⟩
    rw [outlineAll, List.map_append, hfirst]
    refine ⟨fun d hd => (Option.some.inj hd).symm, ?_, ?_⟩
    · refine List.isChain_append.mpr ⟨hchain, hchain', fun a ha b hb => ?_⟩
      rw [hhead b hb]
      exact ⟨hdepth, Nat.le_succ_of_le (hall a (List.mem_of_getLast? ha))⟩
    · exact List.forall_mem_append.mpr ⟨hall, hbelow'⟩

end

end CSurvey.Node
