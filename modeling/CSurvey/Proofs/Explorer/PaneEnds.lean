import CSurvey.Proofs.Explorer.Selection

/-! # The ends of a pane

The keys to the ends are moves as far as a signed number of 64 bits can say. Lists are shorter than
that, so one such move crosses any of them. The survey has no length before it is drawn, and there
the scroll may run further down than the key to the first row goes up. -/

namespace CSurvey.Explorer

/-! ## Rows of panes -/

/-- The number of the first row: lines are counted from one, and all else from zero. -/
def Pane.firstRow : Pane → Nat
  | .source => 1
  | .tokens | .tree | .survey => 0

namespace State

/-- The row that is marked in a pane. -/
def row? (s : State) : Pane → Option Nat
  | .source => some s.line
  | .tokens => s.tokenPlace.selected
  | .tree => s.treePlace.selected
  | .survey => some s.surveyScroll

/-- How many rows a pane has. Those of the survey are only known when it is drawn. -/
def rowCount? (s : State) : Pane → Option Nat
  | .source => some s.paintedLines.length
  | .tokens => some s.tokens.length
  | .tree => some s.outline.length
  | .survey => none

/-- The pane that has the focus is at its first row. -/
def AtFirst (s : State) : Prop :=
  s.row? s.focus = some s.focus.firstRow

instance (s : State) : Decidable s.AtFirst :=
  inferInstanceAs (Decidable (_ = _))

/-- The pane that has the focus is at its last row, if its rows are counted and there are any. -/
def AtLast (s : State) : Prop :=
  ∀ count ∈ s.rowCount? s.focus, 0 < count → s.row? s.focus = some (s.focus.firstRow + (count - 1))

/-! ## Moves to the ends -/

/-- A move leads the marked row of the pane that has the focus to where `moveRow` says, and leaves
focus and rows as they are. -/
theorem move_row (s : State) (delta : Int) :
    (s.move delta).focus = s.focus ∧ (s.move delta).rowCount? = s.rowCount? ∧
      (s.move delta).row? s.focus = some (s.focus.firstRow + moveRow
        ((s.row? s.focus).getD s.focus.firstRow - s.focus.firstRow) delta
        ((s.rowCount? s.focus).getD greatestRow)) := by
  unfold move
  split
  · rename_i hfocus
    refine ⟨rfl, rfl, ?_⟩
    rw [hfocus]
    exact congrArg some (Nat.add_comm ..)
  · rename_i hfocus
    obtain ⟨row, status, hrow, hmove⟩ := s.moveToken_eq delta
    rw [lists, List.length_map] at hrow
    rw [hmove, hfocus]
    exact ⟨rfl, rfl, congrArg some (hrow.trans (Nat.zero_add _).symm)⟩
  · rename_i hfocus
    obtain ⟨row, status, hrow, hmove⟩ := s.moveNode_eq delta
    rw [lists, List.length_map] at hrow
    rw [hmove, hfocus]
    exact ⟨rfl, rfl, congrArg some (hrow.trans (Nat.zero_add _).symm)⟩
  · rename_i hfocus
    refine ⟨rfl, rfl, ?_⟩
    rw [hfocus]
    exact congrArg some (Nat.zero_add _).symm

end State

theorem moveRow_home (row count : Nat) :
    moveRow row Int64.minValue.toInt count = min (row - 2 ^ 63) (count - 1) := by
  rw [moveRow, Int64.toInt_minValue]
  simp

theorem moveRow_toEnd (row count : Nat) :
    moveRow row Int64.maxValue.toInt count =
      min (min (row + (2 ^ 63 - 1)) greatestRow) (count - 1) := by
  rw [moveRow, Int64.toInt_maxValue]
  simp

theorem moveRow_toEnd_of_le {count : Nat} (h : count ≤ 2 ^ 63) (row : Nat) :
    moveRow row Int64.maxValue.toInt count = count - 1 := by
  have hgreatest : 2 ^ 63 - 1 ≤ greatestRow := by decide
  rw [moveRow_toEnd]
  omega

namespace State

variable {s : State}

/-- The key to the first row goes up as many rows as a signed number can say, and no more. -/
theorem home_atFirst_iff :
    (s.press .home).AtFirst ↔
      (s.row? s.focus).getD s.focus.firstRow - s.focus.firstRow ≤ 2 ^ 63 ∨
        (s.rowCount? s.focus).getD greatestRow ≤ 1 := by
  obtain ⟨hfocus, -, hrow⟩ := s.move_row Int64.minValue.toInt
  show (s.move _).row? (s.move _).focus = some (s.move _).focus.firstRow ↔ _
  rw [hfocus, hrow, moveRow_home, Option.some_inj]
  omega

/-- Two presses go up twice as far. -/
theorem home_home_atFirst
    (hrow : (s.row? s.focus).getD s.focus.firstRow - s.focus.firstRow ≤ 2 * 2 ^ 63) :
    ((s.press .home).press .home).AtFirst := by
  obtain ⟨hfocus, -, hmoved⟩ := s.move_row Int64.minValue.toInt
  refine home_atFirst_iff.mpr (.inl ?_)
  show ((s.move _).row? (s.move _).focus).getD (s.move _).focus.firstRow
    - (s.move _).focus.firstRow ≤ _
  rw [hfocus, hmoved, Option.getD_some, moveRow_home]
  omega

/-- The key to the last row crosses any list of at most as many rows as a signed number can say. -/
theorem toEnd_atLast (hcount : ∀ count ∈ s.rowCount? s.focus, count ≤ 2 ^ 63) :
    (s.press .toEnd).AtLast := by
  obtain ⟨hfocus, hcounts, hrow⟩ := s.move_row Int64.maxValue.toInt
  intro count hmem hpos
  show (s.move _).row? (s.move _).focus = some ((s.move _).focus.firstRow + _)
  have hmem : s.rowCount? s.focus = some count := by
    rw [← hfocus, ← hcounts]
    exact hmem
  rw [hfocus, hrow, hmem, Option.getD_some, moveRow_toEnd_of_le (hcount count hmem)]

end State

/-! ## Rows that keys reach -/

/-- The keys mark no line of an examined source that lies behind its last one. -/
theorem State.CanMark.le_lineCount {source : String} {settings : Settings} {findings : Findings}
    (h : examine source settings = .ok findings) {line : Nat}
    (hline : (State.start source findings).CanMark line) :
    line ≤ Text.lineCount source.toList := by
  have hlines := Text.length_lines_le source.toList
  have hone : 1 ≤ Text.lineCount source.toList := Nat.le_add_left ..
  obtain ⟨-, hle | ⟨-, hend⟩⟩ := hline.line_le h
  · omega
  · exact Nat.le_of_eq hend

/-- Scrolls stay numbers of 64 bits. -/
theorem State.surveyScroll_le (shown : String) (findings : Findings) (keys : List Key) :
    ∀ s ∈ (State.start shown findings).run keys, s.surveyScroll ≤ greatestRow := by
  refine forall_mem_run (P := (·.surveyScroll ≤ greatestRow)) ?_ (Nat.zero_le _) keys
  intro s key h
  obtain ⟨delta, -, hpress⟩ | ⟨-, quit, hpress⟩ := s.press_cases key
  · rw [hpress]
    unfold move
    split
    · exact h
    · obtain ⟨_, _, -, hmove⟩ := s.moveToken_eq delta
      rw [hmove]
      exact h
    · obtain ⟨_, _, -, hmove⟩ := s.moveNode_eq delta
      rw [hmove]
      exact h
    · exact moveRow_le_greatestRow h delta greatestRow
  · rw [hpress]
    exact h

/-- The bytes of an examined source bound how many rows the panes have, and how far down keys mark
one of them. -/
theorem rows_of_examine {source : String} {settings : Settings} {findings : Findings}
    (h : examine source settings = .ok findings) (keys : List Key) :
    ∀ s ∈ (State.start source findings).run keys, ∀ pane,
      (∀ count ∈ s.rowCount? pane, count ≤ source.utf8ByteSize + 1) ∧
        (pane ≠ .survey → (s.row? pane).getD pane.firstRow ≤ source.utf8ByteSize + 1) := by
  intro s hs pane
  obtain ⟨hrange, hlists⟩ :=
    (State.start_inRange source findings).run (fromOne_of_examine h) keys s hs
  have hmost := hlists ▸ atMost_of_examine h
  have htokens := hmost.tokens
  have hrows := hmost.rows
  rw [State.lists, List.length_map] at htokens hrows
  cases pane with
  | source =>
      have hline := (((State.start_follows source findings).run keys s hs).marks).le_lineCount h
      have hcount := Text.lineCount_le source.toList
      have hbytes := Text.length_toList_le source
      refine ⟨fun count hmem => Option.some.inj hmem ▸ hmost.painted, fun _ => ?_⟩
      show s.line ≤ _
      omega
  | tokens =>
      obtain ⟨selected, hselected, hlt⟩ := hrange.token
      refine ⟨fun count hmem => Option.some.inj hmem ▸ htokens, fun _ => ?_⟩
      rw [State.row?, hselected, Option.getD_some]
      omega
  | tree =>
      obtain ⟨selected, hselected, hlt⟩ := hrange.node
      refine ⟨fun count hmem => Option.some.inj hmem ▸ hrows, fun _ => ?_⟩
      rw [State.row?, hselected, Option.getD_some]
      omega
  | survey =>
      exact ⟨fun count hmem => absurd hmem (Option.not_mem_none count), fun hne => absurd rfl hne⟩

/-! ## Keys to the ends -/

/-- The key to the first row leads there from any state of a run, but for the survey, where it does
so exactly if the scroll is no further down than the key goes up; pressed twice, it leads there
always. The key to the last row leads there in every pane whose rows are counted. -/
theorem ends_reached {source : String} {settings : Settings} {findings : Findings}
    (h : examine source settings = .ok findings) (hsize : source.utf8ByteSize < 2 ^ 63)
    (keys : List Key) :
    ∀ s ∈ (State.start source findings).run keys,
      ((s.press .home).AtFirst ↔ (s.focus = .survey → s.surveyScroll ≤ 2 ^ 63)) ∧
        ((s.press .home).press .home).AtFirst ∧ (s.press .toEnd).AtLast := by
  intro s hs
  obtain ⟨hcounts, hrows⟩ := rows_of_examine h keys s hs s.focus
  have hlast := State.toEnd_atLast fun count hcount =>
    Nat.le_trans (hcounts count hcount) (Nat.succ_le_of_lt hsize)
  by_cases hfocus : s.focus = .survey
  · have hrow : (s.row? s.focus).getD s.focus.firstRow - s.focus.firstRow = s.surveyScroll := by
      rw [hfocus]
      rfl
    have hcount : ¬(s.rowCount? s.focus).getD greatestRow ≤ 1 := by
      rw [hfocus]
      show ¬greatestRow ≤ 1
      decide
    have hscroll := State.surveyScroll_le source findings keys s hs
    have hgreatest : greatestRow ≤ 2 * 2 ^ 63 := by decide
    refine ⟨?_, State.home_home_atFirst ?_, hlast⟩
    · rw [State.home_atFirst_iff, hrow, or_iff_left hcount, forall_prop_of_true hfocus]
    · omega
  · have hle := hrows hfocus
    refine ⟨iff_of_true (State.home_atFirst_iff.mpr (.inl ?_)) (absurd · hfocus),
      State.home_home_atFirst ?_, hlast⟩
    · omega
    · omega

/-- The keys to both ends of the tokens, behind some others. -/
theorem ends_reached_declaration :
    ∃ findings, examine "int x;\n" {} = .ok findings ∧ "int x;\n".utf8ByteSize < 2 ^ 63 ∧
      ∃ s ∈ (State.start "int x;\n" findings).run [.pageDown, .tab, .down],
        s.focus = .tokens ∧ (s.press .home).AtFirst ∧ (s.press .toEnd).AtLast := by
  have hfound : (match examine "int x;\n" {} with
      | .ok findings => decide (∃ s ∈ (State.start "int x;\n" findings).run
          [.pageDown, .tab, .down], s.focus = .tokens)
      | .error _ => false) = true := by decide +kernel
  split at hfound
  · rename_i findings h
    have hsize : "int x;\n".utf8ByteSize < 2 ^ 63 := by decide
    obtain ⟨s, hs, hfocus⟩ := of_decide_eq_true hfound
    obtain ⟨hfirst, -, hlast⟩ := ends_reached h hsize _ s hs
    exact ⟨findings, h, hsize, s, hs, hfocus,
      hfirst.mpr fun hsurvey => absurd (hfocus.symm.trans hsurvey) (by decide), hlast⟩
  · contradiction

/-- The key to the first row leaves the survey far down if the scroll was brought there by two
presses of the key to the last one. -/
theorem home_not_atFirst :
    ∃ findings, examine "" {} = .ok findings ∧
      ∃ s ∈ (State.start "" findings).run [.backTab, .toEnd, .toEnd],
        s.focus = .survey ∧ ¬(s.press .home).AtFirst := by
  have hfound : (match examine "" {} with
      | .ok findings => decide (∃ s ∈ (State.start "" findings).run [.backTab, .toEnd, .toEnd],
          s.focus = .survey ∧ ¬(s.press .home).AtFirst)
      | .error _ => false) = true := by decide +kernel
  split at hfound
  · rename_i findings h
    have hreached := of_decide_eq_true hfound
    exact ⟨findings, h, hreached⟩
  · contradiction

end CSurvey.Explorer
