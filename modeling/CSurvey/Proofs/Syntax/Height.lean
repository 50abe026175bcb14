import Mathlib.Data.List.Chain
import CSurvey.Survey.Basic
import CSurvey.Syntax.Outline

/-! # How tall trees are

The height of a tree is the number of nodes on its longest way down. A function that calls itself
on the children of a node and on nothing else goes as many calls deep as the tree is tall. -/

namespace CSurvey.Node

mutual

/-- How many nodes stand on the longest way down a tree. -/
def height : Node → Nat
  | ⟨_, _, children, _⟩ => heightAll children + 1

/-- How many nodes stand on the longest way down several trees. -/
def heightAll : List Node → Nat
  | [] => 0
  | n :: ns => max n.height (heightAll ns)

end

variable {n : Node} {ns : List Node} {k : Nat}

theorem height_eq (n : Node) : n.height = heightAll n.children + 1 := by
  cases n
  rw [height]

theorem heightAll_le_iff : heightAll ns ≤ k ↔ ∀ n ∈ ns, n.height ≤ k := by
  induction ns with
  | nil => simp [heightAll]
  | cons n ns ih => rw [heightAll, Nat.max_le, ih, List.forall_mem_cons]

theorem height_le_succ_iff : n.height ≤ k + 1 ↔ ∀ c ∈ n.children, c.height ≤ k := by
  rw [height_eq, Nat.add_le_add_iff_right, heightAll_le_iff]

theorem height_lt_of_mem {c : Node} (h : c ∈ n.children) : c.height < n.height := by
  rw [height_eq n]
  exact Nat.lt_succ_of_le (heightAll_le_iff.mp (Nat.le_refl _) c h)

theorem height_texted_le {kind : Kind} {text : String} {location : Position}
    (h : ∀ c ∈ ns, c.height ≤ k) : (texted kind text location ns).height ≤ k + 1 :=
  height_le_succ_iff.mpr h

theorem height_plain_le {kind : Kind} {location : Position} (h : ∀ c ∈ ns, c.height ≤ k) :
    (plain kind location ns).height ≤ k + 1 :=
  height_le_succ_iff.mpr h

/-! ## Ways down -/

/-- A way down a tree, from node to child, has no more nodes than the tree is tall. -/
theorem length_le_height {below : List Node}
    (h : List.IsChain (fun n c => c ∈ n.children) (n :: below)) :
    (n :: below).length ≤ n.height := by
  induction below generalizing n with
  | nil => simp [height_eq n]
  | cons c below ih =>
      obtain ⟨hchild, hbelow⟩ := List.isChain_cons_cons.mp h
      have hlt := height_lt_of_mem hchild
      have hle := ih hbelow
      simp only [List.length_cons] at hle ⊢
      omega

mutual

theorem height_le_of_mem {m : Node} : {n : Node} → m ∈ n.preorder → m.height ≤ n.height
  | ⟨kind, value, children, location⟩, h => by
    rw [preorder] at h
    rcases List.mem_cons.mp h with rfl | h
    · exact Nat.le_refl _
    · exact Nat.le_succ_of_le (height_le_of_mem_all h)

theorem height_le_of_mem_all {m : Node} : {ns : List Node} → m ∈ preorderAll ns →
    m.height ≤ heightAll ns
  | [], h => by simp [preorderAll] at h
  | n :: ns, h => by
    rw [preorderAll] at h
    rcases List.mem_append.mp h with h | h
    · exact Nat.le_trans (height_le_of_mem h) (Nat.le_max_left _ _)
    · exact Nat.le_trans (height_le_of_mem_all h) (Nat.le_max_right _ _)

end

/-! ## Recursion over trees -/

variable {β : Type} {step : Node → List β → β}

/-- The result of a recursion that makes the result of a node from those of its children. At most
`levels` calls may be open at once, and one more has no result. -/
def foldWithin (step : Node → List β → β) : Nat → Node → Option β
  | 0, _ => none
  | levels + 1, n => (n.children.mapM (foldWithin step levels)).map (step n)

/-- A function whose result at a node is made from its results at the children. -/
def Recurses (step : Node → List β → β) (f : Node → β) : Prop :=
  ∀ n, f n = step n (n.children.map f)

/-- A recursion has a result just if as many calls may be open as the tree is tall. -/
theorem Recurses.foldWithin_eq {f : Node → β} (h : Recurses step f) (levels : Nat) (n : Node) :
    foldWithin step levels n = if n.height ≤ levels then some (f n) else none := by
  induction levels generalizing n with
  | zero => simp [foldWithin, height_eq n]
  | succ levels ih =>
      have hall : ∀ ns : List Node, ns.mapM (foldWithin step levels) =
          if heightAll ns ≤ levels then some (ns.map f) else none := by
        intro ns
        induction ns with
        | nil => rfl
        | cons c ns hns =>
            rw [List.mapM_cons, ih c, hns, heightAll]
            by_cases hc : c.height ≤ levels
            · by_cases hrest : heightAll ns ≤ levels
              · rw [if_pos hc, if_pos hrest, if_pos (Nat.max_le.mpr ⟨hc, hrest⟩)]
                rfl
              · rw [if_pos hc, if_neg hrest, if_neg fun h => hrest (Nat.max_le.mp h).2]
                rfl
            · rw [if_neg hc, if_neg fun h => hc (Nat.max_le.mp h).1]
              rfl
      rw [foldWithin, hall, height_eq n, h n]
      by_cases hchildren : heightAll n.children ≤ levels
      · simp [hchildren]
      · simp [hchildren]

/-! ## The functions that go down trees -/

/-- A node counts for one, with those below it. -/
def countStep (_ : Node) (counts : List Nat) : Nat :=
  1 + counts.foldr (· + ·) 0

theorem count_recurses : Recurses countStep count := by
  have hall : ∀ ns : List Node, countAll ns = (ns.map count).foldr (· + ·) 0 := by
    intro ns
    induction ns with
    | nil => rfl
    | cons n ns ih => simp [countAll, ih]
  rintro ⟨kind, value, children, location⟩
  rw [count, countStep, hall]

/-- An error shows at every node above it. -/
def errorStep (n : Node) (found : List Bool) : Bool :=
  n.kind = .error || found.any id

theorem hasErrors_recurses : Recurses errorStep hasErrors := by
  have hall : ∀ ns : List Node, anyHasErrors ns = (ns.map hasErrors).any id := by
    intro ns
    induction ns with
    | nil => rfl
    | cons n ns ih => simp [anyHasErrors, ih]
  rintro ⟨kind, value, children, location⟩
  rw [hasErrors, errorStep, hall]

/-- The text of a node is arranged from those of its children. -/
def renderStep (n : Node) (texts : List String) : String :=
  arrange n.kind n.value (List.zipWith (fun c text => ⟨c.kind.isCompound, text⟩) n.children texts)

theorem render_recurses : Recurses renderStep render := by
  have hall : ∀ ns : List Node, renderAll ns =
      List.zipWith (fun c text => ⟨c.kind.isCompound, text⟩) ns (ns.map render) := by
    intro ns
    induction ns with
    | nil => rfl
    | cons n ns ih => simp [renderAll, ih]
  rintro ⟨kind, value, children, location⟩
  rw [render, renderStep, hall]

/-- The row of a node stands before those of its children, which are one level deeper. -/
def outlineStep (n : Node) (rows : List (Nat → List OutlineLine)) (depth : Nat) :
    List OutlineLine :=
  ⟨depth, n.kind, label n.kind n.value, n.location.line⟩ :: rows.flatMap fun below =>
    below (depth + 1)

theorem outlineFrom_recurses : Recurses outlineStep fun n depth => n.outlineFrom depth := by
  have hall : ∀ (ns : List Node) (depth : Nat), outlineAll depth ns =
      (ns.map fun n depth => n.outlineFrom depth).flatMap fun below => below depth := by
    intro ns depth
    induction ns with
    | nil => rfl
    | cons n ns ih => simp [outlineAll, ih]
  rintro ⟨kind, value, children, location⟩
  funext depth
  show outlineFrom depth _ = _
  rw [outlineFrom, outlineStep, hall]

/-- What a node adds to a survey comes before what its children add. -/
def surveyStep (n : Node) (adds : List (Survey → Survey)) (a : Survey) : Survey :=
  adds.foldl (fun a add => add a) (a.note n)

theorem add_recurses : Recurses surveyStep fun n a => a.add n := by
  have hall : ∀ (ns : List Node) (a : Survey), a.addAll ns =
      (ns.map fun n a => Survey.add a n).foldl (fun a add => add a) a := by
    intro ns a
    induction ns generalizing a with
    | nil => rfl
    | cons n ns ih => simp [Survey.addAll, ih]
  rintro ⟨kind, value, children, location⟩
  funext a
  show Survey.add a _ = _
  rw [Survey.add, surveyStep, hall]

end CSurvey.Node
