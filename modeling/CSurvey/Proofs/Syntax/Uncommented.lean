import CSurvey.Proofs.Syntax.Shape

/-! # Trees without comments

What is left of a tree when every comment below its root is taken out, at any depth. -/

namespace CSurvey.Node

mutual

/-- The tree without the comments below its root. -/
def uncommented : Node → Node
  | ⟨kind, value, children, location⟩ => ⟨kind, value, uncommentedAll children, location⟩

/-- The trees that are no comments, without the comments below them. -/
def uncommentedAll : List Node → List Node
  | [] => []
  | n :: ns =>
    if n.kind = .comment then uncommentedAll ns else n.uncommented :: uncommentedAll ns

end

/-- What is left of a tree among other trees: a comment goes, anything else stays without its
comments. -/
def trimmed (n : Node) : Option Node :=
  if n.kind = .comment then none else some n.uncommented

theorem uncommentedAll_eq_filterMap (ns : List Node) :
    uncommentedAll ns = ns.filterMap trimmed := by
  induction ns with
  | nil => rfl
  | cons n ns ih =>
      rw [uncommentedAll, List.filterMap_cons, trimmed, ih]
      split
      · rfl
      · rfl

theorem uncommented_eq (n : Node) :
    n.uncommented = ⟨n.kind, n.value, n.children.filterMap trimmed, n.location⟩ := by
  obtain ⟨kind, value, children, location⟩ := n
  rw [uncommented, uncommentedAll_eq_filterMap]

mutual

/-- No comments are left below the root. -/
theorem commentsIn_uncommented : (n : Node) → commentsIn n.uncommented.children = []
  | ⟨_, _, children, _⟩ => commentsIn_uncommentedAll children

theorem commentsIn_uncommentedAll : (ns : List Node) → commentsIn (uncommentedAll ns) = []
  | [] => rfl
  | n :: ns => by
    have hall := commentsIn_uncommentedAll ns
    rw [uncommentedAll]
    split
    · exact hall
    · rename_i hk
      have hbelow := commentsIn_uncommented n
      have hself : commentsIn [n.uncommented] = commentsIn n.uncommented.children := by
        obtain ⟨kind, value, children, location⟩ := n
        simp only [uncommented, commentsIn, preorderAll, preorder, List.append_nil]
        exact List.filter_cons_of_neg (by simpa using hk)
      rw [commentsIn_cons, hself, hbelow, hall, List.append_nil]

end

end CSurvey.Node
