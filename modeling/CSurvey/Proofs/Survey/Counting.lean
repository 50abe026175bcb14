import CSurvey.Proofs.Grammar.Items
import CSurvey.Proofs.Grammar.NodeCount
import CSurvey.Survey.Basic

/-! # The count of a survey

The complexity of a survey is a word, which each function that is defined and each branch raises by
one. It wraps behind the greatest word; where sums are checked there is no survey then. The survey
of a file, which starts from zero, never comes that far if a word can count the tokens of the file,
as it can in a memory of 64-bit addresses. -/

namespace CSurvey

/-- The kinds of nodes that raise the complexity. -/
def Node.Kind.isCounted (k : Kind) : Bool :=
  k = .functionDefinition || k.isBranch

/-- How many nodes raise the complexity. -/
def Node.counted (ns : List Node) : Nat :=
  ns.countP fun n => n.kind.isCounted

/-- No function definition is a branch. -/
theorem Node.counted_eq (ns : List Node) :
    counted ns = ns.countP (fun n => n.kind = .functionDefinition) +
      ns.countP fun n => n.kind.isBranch := by
  have hkind : ∀ k : Kind, (if k.isCounted then 1 else 0) =
      (if k = .functionDefinition then 1 else 0) + if k.isBranch then 1 else 0 := by decide
  induction ns with
  | nil => rfl
  | cons n ns ih =>
      rw [counted] at ih
      simp only [counted, List.countP_cons, decide_eq_true_eq, ih, hkind]
      omega

namespace Survey

open Node (counted)

/-! ## Sums that are checked -/

/-- The survey with what one node adds to it, its children aside, if the count does not wrap. -/
def note? (a : Survey) (n : Node) : Option Survey :=
  if a.complexity ≤ (a.note n).complexity then some (a.note n) else none

mutual

/-- The survey with what a tree adds to it, if the count wraps at none of its nodes. -/
def add? (a : Survey) : Node → Option Survey
  | ⟨kind, value, children, location⟩ => do
    (← a.note? ⟨kind, value, children, location⟩).addAll? children

/-- The survey with what several trees add to it, if the count wraps at none of their nodes. -/
def addAll? (a : Survey) : List Node → Option Survey
  | [] => some a
  | n :: ns => do (← a.add? n).addAll? ns

end

/-! ## Steps of the count -/

/-- A step raises the complexity by so much, and where sums are checked it has a result exactly if
this does not wrap. -/
structure Raises (step : Survey → Survey) (checked : Survey → Option Survey) (count : Nat) :
    Prop where
  complexity : ∀ a, (step a).complexity = a.complexity + .ofNat count
  checked_eq : ∀ a, checked a =
    if a.complexity.toNat + count < UInt64.size then some (step a) else none

namespace Raises

variable {step step' : Survey → Survey} {checked checked' : Survey → Option Survey}
  {count count' : Nat}

theorem toNat (h : Raises step checked count) (a : Survey) :
    (step a).complexity.toNat = (a.complexity.toNat + count) % UInt64.size := by
  rw [h.complexity, UInt64.toNat_add, UInt64.toNat_ofNat']
  exact Nat.add_mod_mod ..

theorem toNat_of_lt (h : Raises step checked count) {a : Survey}
    (ha : a.complexity.toNat + count < UInt64.size) :
    (step a).complexity.toNat = a.complexity.toNat + count :=
  (h.toNat a).trans (Nat.mod_eq_of_lt ha)

theorem refl : Raises id some 0 where
  complexity _ := (UInt64.add_zero _).symm
  checked_eq a := (if_pos a.complexity.toNat_lt_size).symm

/-- Two steps together wrap as soon as one of them does. -/
theorem trans (h : Raises step checked count) (h' : Raises step' checked' count') :
    Raises (fun a => step' (step a)) (fun a => checked a >>= checked') (count + count') where
  complexity a := by rw [h'.complexity, h.complexity, UInt64.ofNat_add, UInt64.add_assoc]
  checked_eq a := by
    show checked a >>= checked' = _
    rw [h.checked_eq]
    by_cases ha : a.complexity.toNat + count < UInt64.size
    · rw [if_pos ha, ← Nat.add_assoc, ← h.toNat_of_lt ha]
      exact h'.checked_eq (step a)
    · rw [if_neg ha, if_neg (by omega)]
      rfl

end Raises

theorem note_complexity (a : Survey) (n : Node) :
    (a.note n).complexity = a.complexity + .ofNat (if n.kind.isCounted then 1 else 0) := by
  obtain ⟨kind, value, children, location⟩ := n
  cases kind
  all_goals simp [note, Node.Kind.isCounted, Node.Kind.isBranch]

/-- A sum with one that wraps is less than it was before. -/
theorem note_raises (n : Node) :
    Raises (note · n) (note? · n) (if n.kind.isCounted then 1 else 0) := by
  refine ⟨fun a => note_complexity a n, fun a => if_congr ?_ rfl rfl⟩
  have hlt := a.complexity.toNat_lt_size
  rw [UInt64.le_iff_toNat_le, note_complexity, UInt64.toNat_add, UInt64.toNat_ofNat']
  show _ ≤ _ % UInt64.size ↔ _
  split
  all_goals simp only [UInt64.size] at hlt ⊢
  all_goals omega

mutual

/-- A tree raises the complexity by the number of its nodes that count. -/
theorem add_raises : (n : Node) → Raises (add · n) (add? · n) (counted n.preorder)
  | ⟨kind, value, children, location⟩ => by
    have hchildren := (note_raises ⟨kind, value, children, location⟩).trans (addAll_raises children)
    rw [Nat.add_comm] at hchildren
    rwa [Node.preorder, counted, List.countP_cons]

theorem addAll_raises :
    (ns : List Node) → Raises (addAll · ns) (addAll? · ns) (counted (Node.preorderAll ns))
  | [] => .refl
  | n :: ns => by
    rw [Node.preorderAll, counted, List.countP_append]
    exact (add_raises n).trans (addAll_raises ns)

end

/-! ## The count of a tree -/

theorem complexity_ofNode (root : Node) :
    (ofNode root).complexity = .ofNat (counted root.preorder) := by
  rw [ofNode, (add_raises root).complexity]
  exact UInt64.zero_add _

theorem toNat_complexity_ofNode {root : Node} (h : counted root.preorder < UInt64.size) :
    (ofNode root).complexity.toNat = counted root.preorder := by
  rw [complexity_ofNode]
  exact UInt64.toNat_ofNat_of_lt h

end Survey

open Grammar Survey

/-- No more nodes of a file count than it has tokens. -/
theorem counted_parse_le {tokens : List Token} (hends : EndsOnce tokens)
    (options : ParseSettings) :
    Node.counted (parse tokens options).root.preorder ≤ tokens.length := by
  obtain ⟨inner, last, rfl, hlast, hinner⟩ := hends
  calc
    Node.counted (parse (inner ++ [last]) options).root.preorder
        ≤ (parse (inner ++ [last]) options).root.preorder.length := List.countP_le_length
    _ = (parse (inner ++ [last]) options).root.count := Node.length_preorder _
    _ ≤ inner.length + 1 := count_parse_le options hlast hinner
    _ = (inner ++ [last]).length := by simp

theorem toNat_complexity_parse_le {tokens : List Token} (hends : EndsOnce tokens)
    (options : ParseSettings) :
    (ofNode (parse tokens options).root).complexity.toNat ≤ tokens.length := by
  rw [complexity_ofNode, UInt64.toNat_ofNat']
  exact Nat.le_trans (Nat.mod_le ..) (counted_parse_le hends options)

/-- Where sums are checked, a file whose tokens can be counted with a word has its survey. -/
theorem add?_parse {tokens : List Token} (hends : EndsOnce tokens) (options : ParseSettings)
    (hsize : tokens.length < UInt64.size) :
    ({} : Survey).add? (parse tokens options).root = some (ofNode (parse tokens options).root) := by
  have hle := counted_parse_le hends options
  refine ((add_raises _).checked_eq {}).trans (if_pos ?_)
  show 0 + _ < _
  omega

end CSurvey
