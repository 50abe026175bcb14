import CSurvey.Explorer.State

/-! # What a key does

A key moves rows or changes the focus. Of what the panes show it reads how many rows there are and
on which lines they stand, and it changes none of that. -/

namespace CSurvey.Explorer

/-- What the panes show, as far as keys read it: how many lines are painted, and on which lines the
tokens and the rows of the tree stand. -/
structure Lists where
  painted : Nat
  tokenLines : List Nat
  rowLines : List Nat

/-- The lists in the panes of a state. -/
def State.lists (s : State) : Lists :=
  ⟨s.paintedLines.length, s.tokens.map (·.location.line), s.outline.map (·.line)⟩

/-- The pane that has the focus after a key that moves no row. -/
def Key.focusAfter : Key → Pane → Pane
  | .tab, pane => pane.next
  | .backTab, pane => pane.previous
  | _, pane => pane

namespace State

/-- A key moves rows, or it changes the focus at most. -/
theorem press_cases (s : State) (key : Key) :
    (∃ delta, key.move? = some delta ∧ s.press key = s.move delta) ∨
      key.move? = none ∧ ∃ quit,
        s.press key = { s with focus := key.focusAfter s.focus, quit } := by
  cases key with
  | char c =>
      refine .inr ⟨rfl, ?_⟩
      by_cases hquit : c = 'q' ∨ c = 'Q'
      · obtain rfl | rfl := hquit <;> exact ⟨true, rfl⟩
      · refine ⟨s.quit, ?_⟩
        rw [not_or] at hquit
        unfold press
        split <;> simp_all [Key.move?, Key.focusAfter]
  | escape => exact .inr ⟨rfl, true, rfl⟩
  | tab | backTab | left | right | enter => exact .inr ⟨rfl, s.quit, rfl⟩
  | up | down | pageUp | pageDown | home | toEnd => exact .inl ⟨_, rfl, rfl⟩

/-- A move among the tokens selects a row, and marks the line of its token if there is one. -/
theorem moveToken_eq (s : State) (delta : Int) :
    ∃ row status, row = moveRow (s.tokenPlace.selected.getD 0) delta s.lists.tokenLines.length ∧
      s.moveToken delta = { s with
        tokenPlace := s.tokenPlace.select row
        line := s.lists.tokenLines[row]?.getD s.line
        status } := by
  have hlength : s.lists.tokenLines.length = s.tokens.length := List.length_map _
  rw [hlength, moveToken]
  split
  · rename_i t ht
    exact ⟨_, t.describe ++ " at " ++ t.location.text, rfl, by simp [lists, ht]⟩
  · rename_i ht
    exact ⟨_, s.status, rfl, by simp [lists, ht]⟩

/-- A move in the tree selects a row, and marks its line if there is one. -/
theorem moveNode_eq (s : State) (delta : Int) :
    ∃ row status, row = moveRow (s.treePlace.selected.getD 0) delta s.lists.rowLines.length ∧
      s.moveNode delta = { s with
        treePlace := s.treePlace.select row
        line := s.lists.rowLines[row]?.getD s.line
        status } := by
  have hlength : s.lists.rowLines.length = s.outline.length := List.length_map _
  rw [hlength, moveNode]
  split
  · rename_i found hfound
    exact ⟨_, s!"{found.kind.name} (line {found.line})", rfl, by simp [lists, hfound]⟩
  · rename_i hfound
    exact ⟨_, s.status, rfl, by simp [lists, hfound]⟩

theorem lists_move (s : State) (delta : Int) : (s.move delta).lists = s.lists := by
  unfold move
  split
  · rfl
  · obtain ⟨_, _, -, hmove⟩ := s.moveToken_eq delta
    rw [hmove]
    rfl
  · obtain ⟨_, _, -, hmove⟩ := s.moveNode_eq delta
    rw [hmove]
    rfl
  · rfl

/-- Keys leave the lists in the panes alone. -/
theorem lists_press (s : State) (key : Key) : (s.press key).lists = s.lists := by
  obtain ⟨delta, -, hpress⟩ | ⟨-, quit, hpress⟩ := s.press_cases key
  · rw [hpress, lists_move]
  · rw [hpress]
    rfl

/-- What each key keeps holds in all states of a run. -/
theorem forall_mem_run {P : State → Prop} (hpress : ∀ s key, P s → P (s.press key)) {s : State}
    (h : P s) (keys : List Key) : ∀ t ∈ s.run keys, P t := by
  induction keys generalizing s with
  | nil =>
      intro t ht
      obtain rfl := List.mem_singleton.mp ht
      exact h
  | cons key keys ih =>
      rw [run, List.forall_mem_cons]
      exact ⟨h, ih (hpress s key h)⟩

end State

end CSurvey.Explorer
