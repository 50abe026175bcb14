import Mathlib.Data.String.Basic
import CSurvey.Proofs.Explorer.MarkedLine
import CSurvey.Proofs.Explorer.Words
import CSurvey.Proofs.Grammar.NodeCount

/-! # Selections

Whatever the keys, the selections of the explorer stand in their lists and the marked line is
counted from one, so that no number of a run wraps. The lists are counted in 64 bits, as neither
tokens nor nodes nor lines are more than the characters of the source allow. -/

namespace CSurvey

/-! ## How much there is to select -/

theorem Text.length_toList_le (text : String) : text.toList.length ≤ text.utf8ByteSize := by
  have hsize : text.utf8ByteSize = String.utf8Len text.toList := by
    rw [← String.utf8ByteSize_ofList, String.ofList_toList]
  rw [hsize]
  induction text.toList with
  | nil => exact Nat.zero_le _
  | cons c cs ih =>
      have hpos := c.utf8Size_pos
      rw [List.length_cons, String.utf8Len_cons]
      omega

/-- No more tokens stand in a text than characters, the end of input apart. -/
theorem Tiles.length_le {passed rest : List Char} {tokens : List Token}
    (h : Tiles passed rest tokens) : tokens.length ≤ rest.length + 1 := by
  induction h with
  | finished _ => exact Nat.le_refl 1
  | blank _ _ ih => exact Nat.le_succ_of_le ih
  | @token _ t rest tokens ht _ _ ih =>
      have hpos := List.length_pos_iff.mpr ht.text_ne
      rw [List.length_cons, List.length_append]
      omega

theorem Text.lineCount_le (text : List Char) : lineCount text ≤ text.length + 1 :=
  Nat.add_le_add_right List.count_le_length 1

/-- The tokens of an examined source are no more than its bytes, and the nodes of its tree no more
than the tokens. -/
theorem count_le_of_examine {source : String} {settings : Settings} {findings : Findings}
    (h : examine source settings = .ok findings) :
    findings.tokens.length ≤ source.utf8ByteSize + 1 ∧
      findings.root.count ≤ findings.tokens.length := by
  obtain ⟨htokens, hroot⟩ := findings_of_examine h
  have htiles := tiles_of_tokenize htokens
  obtain ⟨inner, hsplit, hinner⟩ := htiles.ending
  refine ⟨Nat.le_trans htiles.length_le (Nat.succ_le_succ (Text.length_toList_le source)), ?_⟩
  rw [hroot, hsplit, List.length_append]
  exact count_parse_le settings.parsing rfl fun t ht => (hinner t ht).kind_ne

namespace Explorer

/-- Lists of at most as many rows as `bound` says, on lines that are no further down. -/
structure Lists.AtMost (lists : Lists) (bound : Nat) : Prop where
  painted : lists.painted ≤ bound
  tokens : lists.tokenLines.length ≤ bound
  tokenLines : ∀ line ∈ lists.tokenLines, line ≤ bound
  rows : lists.rowLines.length ≤ bound
  rowLines : ∀ line ∈ lists.rowLines, line ≤ bound

theorem Lists.AtMost.fit {lists : Lists} {bound : Nat} (h : lists.AtMost bound)
    (hbound : bound < UInt64.size) : lists.Fit :=
  ⟨Nat.lt_of_le_of_lt h.painted hbound, Nat.lt_of_le_of_lt h.tokens hbound,
    fun line hline => Nat.lt_of_le_of_lt (h.tokenLines line hline) hbound,
    Nat.lt_of_le_of_lt h.rows hbound,
    fun line hline => Nat.lt_of_le_of_lt (h.rowLines line hline) hbound⟩

/-- The lists in the panes of an examined source have at most one row more than the source has
bytes. -/
theorem atMost_of_examine {source : String} {settings : Settings} {findings : Findings}
    (h : examine source settings = .ok findings) :
    (State.start source findings).lists.AtMost (source.utf8ByteSize + 1) := by
  obtain ⟨htokens, hnodes⟩ := count_le_of_examine h
  obtain ⟨htokenLines, hrowLines⟩ := line_of_examine h
  have hcount := Text.lineCount_le source.toList
  have hbytes := Text.length_toList_le source
  have hlines := Text.length_lines_le source.toList
  have hvisible := List.length_filter_le Token.isVisible findings.tokens
  refine ⟨?_, ?_, ?_, ?_, ?_⟩
  · show (highlight source findings.tokens).length ≤ _
    rw [length_highlight]
    omega
  · show (List.map _ (findings.tokens.filter Token.isVisible)).length ≤ _
    rw [List.length_map]
    omega
  · refine List.forall_mem_map.mpr fun t ht => ?_
    have hle := (htokenLines t ht).2
    omega
  · show (List.map _ findings.root.outline).length ≤ _
    rw [List.length_map, Node.length_outline]
    omega
  · refine List.forall_mem_map.mpr fun row hrow => ?_
    have hle := (hrowLines row hrow).2
    omega

/-- The lists in the panes of an examined source are counted with words, if its bytes are counted
with signed ones. -/
theorem fit_of_examine {source : String} {settings : Settings} {findings : Findings}
    (h : examine source settings = .ok findings) (hsize : source.utf8ByteSize < 2 ^ 63) :
    (State.start source findings).lists.Fit := by
  refine (atMost_of_examine h).fit ?_
  show _ < 2 ^ 64
  omega

/-! ## Selections and lines -/

/-- Lists whose lines are counted from one. -/
structure Lists.FromOne (lists : Lists) : Prop where
  tokenLines : ∀ line ∈ lists.tokenLines, 1 ≤ line
  rowLines : ∀ line ∈ lists.rowLines, 1 ≤ line

theorem fromOne_of_examine {source : String} {settings : Settings} {findings : Findings}
    (h : examine source settings = .ok findings) :
    (State.start source findings).lists.FromOne := by
  obtain ⟨htokens, hrows⟩ := line_of_examine h
  exact ⟨List.forall_mem_map.mpr fun t ht => (htokens t ht).1,
    List.forall_mem_map.mpr fun row hrow => (hrows row hrow).1⟩

/-- The selections stand in their lists, and the marked line is counted from one. A list of tokens
may be empty, and the first row is selected then all the same. -/
structure State.InRange (s : State) : Prop where
  line : 1 ≤ s.line
  token : ∃ row, s.tokenPlace.selected = some row ∧ row < max 1 s.tokens.length
  node : ∃ row, s.treePlace.selected = some row ∧ row < s.outline.length

/-- The marked line is that of the selected token. -/
def State.MarksToken (s : State) : Prop :=
  ∃ row t, s.tokenPlace.selected = some row ∧ s.tokens[row]? = some t ∧ s.line = t.location.line

/-- The marked line is that of the selected row of the tree. -/
def State.MarksRow (s : State) : Prop :=
  ∃ row r, s.treePlace.selected = some row ∧ s.outline[row]? = some r ∧ s.line = r.line

namespace State

variable {s : State}

theorem start_inRange (shown : String) (findings : Findings) :
    (State.start shown findings).InRange := by
  have hpos : 0 < findings.root.outline.length := by
    rw [Node.length_outline]
    exact findings.root.count_pos
  exact ⟨Nat.le_refl 1, ⟨0, rfl, Nat.lt_of_lt_of_le Nat.one_pos (Nat.le_max_left ..)⟩, 0, rfl, hpos⟩

theorem InRange.move (h : s.InRange) (hlists : s.lists.FromOne) (delta : Int) :
    (s.move delta).InRange := by
  have hmarks : ∀ {lines : List Nat}, (∀ line ∈ lines, 1 ≤ line) → ∀ row : Nat,
      1 ≤ lines[row]?.getD s.line := fun {lines} hlines row => by
    cases hfound : lines[row]? with
    | none => exact h.line
    | some line => exact hlines line (List.mem_of_getElem? hfound)
  unfold State.move
  split
  · exact ⟨Nat.le_add_left .., h.token, h.node⟩
  · obtain ⟨row, status, hrow, hmove⟩ := s.moveToken_eq delta
    have hle := moveRow_le (s.tokenPlace.selected.getD 0) delta s.lists.tokenLines.length
    rw [← hrow, lists, List.length_map] at hle
    rw [hmove]
    exact ⟨hmarks hlists.tokenLines row, ⟨row, rfl, by show row < max 1 s.tokens.length; omega⟩,
      h.node⟩
  · obtain ⟨row, status, hrow, hmove⟩ := s.moveNode_eq delta
    obtain ⟨_, -, hpos⟩ := h.node
    have hle := moveRow_le (s.treePlace.selected.getD 0) delta s.lists.rowLines.length
    rw [← hrow, lists, List.length_map] at hle
    rw [hmove]
    exact ⟨hmarks hlists.rowLines row, h.token, row, rfl, by show row < s.outline.length; omega⟩
  · exact ⟨h.line, h.token, h.node⟩

/-- A key leaves the selections in their lists. -/
theorem InRange.press (h : s.InRange) (hlists : s.lists.FromOne) (key : Key) :
    (s.press key).InRange := by
  obtain ⟨delta, -, hpress⟩ | ⟨-, quit, hpress⟩ := s.press_cases key
  · rw [hpress]
    exact h.move hlists delta
  · rw [hpress]
    exact ⟨h.line, h.token, h.node⟩

theorem InRange.run (h : s.InRange) (hlists : s.lists.FromOne) (keys : List Key) :
    ∀ t ∈ s.run keys, t.InRange ∧ t.lists = s.lists := by
  refine forall_mem_run (P := fun t => t.InRange ∧ t.lists = s.lists) ?_ ⟨h, rfl⟩ keys
  rintro t key ⟨hrange, hsame⟩
  exact ⟨hrange.press (hsame ▸ hlists) key, (t.lists_press key).trans hsame⟩

/-- A move among tokens marks the line of the token that is selected then. -/
theorem moveToken_marksToken (htokens : s.tokens ≠ []) (delta : Int) :
    (s.moveToken delta).MarksToken := by
  obtain ⟨row, status, hrow, hmove⟩ := s.moveToken_eq delta
  have hle := moveRow_le (s.tokenPlace.selected.getD 0) delta s.lists.tokenLines.length
  rw [← hrow, lists, List.length_map] at hle
  have hpos := List.length_pos_iff.mpr htokens
  have hfound : s.tokens[row]? = some (s.tokens[row]) := List.getElem?_eq_getElem (by omega)
  rw [hmove]
  exact ⟨row, _, rfl, hfound, by simp [lists, hfound]⟩

/-- A move in the tree marks the line of the row that is selected then. -/
theorem moveNode_marksRow (houtline : s.outline ≠ []) (delta : Int) :
    (s.moveNode delta).MarksRow := by
  obtain ⟨row, status, hrow, hmove⟩ := s.moveNode_eq delta
  have hle := moveRow_le (s.treePlace.selected.getD 0) delta s.lists.rowLines.length
  rw [← hrow, lists, List.length_map] at hle
  have hpos := List.length_pos_iff.mpr houtline
  have hfound : s.outline[row]? = some (s.outline[row]) := List.getElem?_eq_getElem (by omega)
  rw [hmove]
  exact ⟨row, _, rfl, hfound, by simp [lists, hfound]⟩

end State

/-! ## Runs on an examined source -/

/-- Whatever the keys, the selections stand in their lists, the rows of the tree are its nodes, and
a move among tokens or rows marks the line of the one that is selected then. No word wraps on the
way if signed words can count the bytes of the source, as they can of any text in a memory of 64-bit
addresses, and the words are the numbers of the explorer. -/
theorem selections_in_range {source : String} {settings : Settings} {findings : Findings}
    (h : examine source settings = .ok findings) :
    (∀ keys, ∀ s ∈ (State.start source findings).run keys,
        s.InRange ∧ s.outline.length = findings.root.count ∧ 1 ≤ findings.root.count ∧
          ∀ key, key.move? ≠ none →
            (s.focus = .tokens → s.tokens ≠ [] → (s.press key).MarksToken) ∧
              (s.focus = .tree → (s.press key).MarksRow)) ∧
      (source.utf8ByteSize < 2 ^ 63 → ∀ keys, ∃ registers,
        Registers.start.run (State.start source findings).lists keys = some registers ∧
          List.Forall₂ State.InWords ((State.start source findings).run keys) registers) := by
  have hrun := fun keys =>
    (State.start_inRange source findings).run (fromOne_of_examine h) keys
  refine ⟨fun keys s hs => ?_, fun hsize keys => ?_⟩
  · obtain ⟨hrange, hlists⟩ := hrun keys s hs
    have hlength : s.outline.length = findings.root.count := by
      have hrows := congrArg (fun lists : Lists => lists.rowLines.length) hlists
      simp only [State.lists, List.length_map] at hrows
      rw [hrows]
      exact Node.length_outline _
    refine ⟨hrange, hlength, findings.root.count_pos, fun key hkey => ?_⟩
    obtain ⟨delta, -, hpress⟩ | ⟨hnone, -⟩ := s.press_cases key
    · rw [hpress, State.move]
      refine ⟨fun hfocus htokens => ?_, fun hfocus => ?_⟩
      · rw [hfocus]
        exact State.moveToken_marksToken htokens delta
      · rw [hfocus]
        refine State.moveNode_marksRow ?_ delta
        rw [← List.length_pos_iff, hlength]
        exact findings.root.count_pos
    · exact absurd hnone hkey
  · exact (State.start_inWords source findings).run (fit_of_examine h hsize) keys
      fun t ht => (hrun keys t ht).1.line

/-- The key to the last token, in a source with tokens. -/
theorem selections_in_range_declaration :
    ∃ findings, examine "int x;\n" {} = .ok findings ∧
      (∀ keys, ∀ s ∈ (State.start "int x;\n" findings).run keys, s.InRange) ∧
      (((State.start "int x;\n" findings).press .tab).press .toEnd).MarksToken ∧
      ∀ keys, ∃ registers,
        Registers.start.run (State.start "int x;\n" findings).lists keys = some registers ∧
          List.Forall₂ State.InWords ((State.start "int x;\n" findings).run keys) registers := by
  have hfound : (match examine "int x;\n" {} with
      | .ok findings => decide (findings.tokens.filter Token.isVisible ≠ [])
      | .error _ => false) = true := by decide +kernel
  split at hfound
  · rename_i findings h
    obtain ⟨hstates, hwords⟩ := selections_in_range h
    have hmem : (State.start "int x;\n" findings).press .tab ∈
        (State.start "int x;\n" findings).run [.tab] :=
      List.mem_cons_of_mem _ (List.mem_singleton_self _)
    obtain ⟨-, -, -, hmoves⟩ := hstates [.tab] _ hmem
    exact ⟨findings, h, fun keys s hs => (hstates keys s hs).1,
      (hmoves .toEnd (by decide)).1 rfl (of_decide_eq_true hfound), hwords (by decide)⟩
  · contradiction

end Explorer

end CSurvey
