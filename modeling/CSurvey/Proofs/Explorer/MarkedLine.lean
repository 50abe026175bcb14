import CSurvey.Proofs.Explorer.Highlight
import CSurvey.Proofs.Explorer.Keys
import CSurvey.Proofs.Grammar.Ends
import CSurvey.Proofs.Syntax.Outline

/-! # The marked line

Keys mark a line of the source pane, the line of a token or the line of a row of the tree. Each of
these is displayed, but for one: an error at the end of a source that ends with a newline stands on
a line that no text follows, and that is not displayed. -/

namespace CSurvey

/-! ## Lines of rows and of tokens -/

/-- A token that has a text stands on a line that is displayed. -/
theorem Token.IsInner.line_le {source : String} {tokens : List Token} {t : Token} (h : t.IsInner)
    (htokens : tokenize source = .ok tokens) (ht : t ∈ tokens) :
    1 ≤ t.location.line ∧ t.location.line ≤ (Text.lines source.toList).length := by
  obtain ⟨c, cs, htext⟩ := List.exists_cons_of_ne_nil h.text_ne
  have hcovers : t.Covers t.location := ⟨c, [], cs, htext, rfl⟩
  obtain ⟨before, d, after, hsource, hplace⟩ :=
    (tiles_of_tokenize htokens).exists_of_covers ht hcovers
  rw [hplace, List.nil_append]
  exact ⟨Nat.le_add_right .., Text.line_le_of_append hsource⟩

/-- The lines that are displayed are all, but for an empty last one. -/
theorem Text.lineCount_le_iff (text : List Char) :
    lineCount text ≤ max 1 (lines text).length ↔ text.getLast? ≠ some '\n' := by
  rw [length_lines, lineCount]
  cases hlast : text.getLast? with
  | none =>
      obtain rfl := List.getLast?_eq_none_iff.mp hlast
      simp
  | some c =>
      by_cases hc : c = '\n'
      · subst hc
        have hpos := List.count_pos_iff.mpr (List.mem_of_getLast? hlast)
        simp
        omega
      · simp [hc]

theorem Text.length_lines_le (text : List Char) : (lines text).length ≤ lineCount text := by
  rw [length_lines, lineCount]
  split <;> omega

/-- An examination finds the tokens of the source, and their tree. -/
theorem findings_of_examine {source : String} {settings : Settings} {findings : Findings}
    (h : examine source settings = .ok findings) :
    tokenize source = .ok findings.tokens ∧
      findings.root = (parse findings.tokens settings.parsing).root := by
  unfold examine at h
  split at h
  · contradiction
  · split at h
    · contradiction
    · obtain rfl := Except.ok.inj h
      exact ⟨‹_›, rfl⟩

/-- The lines of the tokens and of the tree of an examined source. -/
theorem line_of_examine {source : String} {settings : Settings} {findings : Findings}
    (h : examine source settings = .ok findings) :
    (∀ t ∈ findings.tokens.filter Token.isVisible,
        1 ≤ t.location.line ∧ t.location.line ≤ (Text.lines source.toList).length) ∧
      ∀ row ∈ findings.root.outline, 1 ≤ row.line ∧
        (row.line ≤ max 1 (Text.lines source.toList).length ∨
          row.kind = .error ∧ row.line = Text.lineCount source.toList) := by
  obtain ⟨htokens, hroot⟩ := findings_of_examine h
  obtain ⟨inner, hsplit, hinner⟩ := (tiles_of_tokenize htokens).ending
  have hline : ∀ t ∈ inner, _ := fun t ht =>
    (hinner t ht).line_le htokens (hsplit ▸ List.mem_append_left _ ht)
  rw [hroot, hsplit]
  refine ⟨fun t ht => ?_, fun row hrow => ?_⟩
  · obtain ⟨ht, hvisible⟩ := List.mem_filter.mp ht
    rcases List.mem_append.mp ht with ht | ht
    · exact hline t ht
    · obtain rfl := List.mem_singleton.mp ht
      contradiction
  · obtain ⟨n, hn, hkind, hrow, -⟩ := Node.mem_outlineFrom _ hrow
    rw [hkind, hrow]
    have hplaces := parse_places rfl (fun t ht => (hinner t ht).kind_ne) settings.parsing n hn
    rcases hplaces with ⟨-, hplace⟩ | ⟨t, ht, hplace⟩ | ⟨herror, hplace⟩
    · rw [hplace]
      exact ⟨Nat.le_refl 1, .inl (Nat.le_max_left ..)⟩
    · obtain ⟨hpos, hle⟩ := hline t ht
      rw [← hplace]
      exact ⟨hpos, .inl (Nat.le_trans hle (Nat.le_max_right ..))⟩
    · rw [hplace]
      exact ⟨Nat.le_add_right .., .inr ⟨herror, Nat.add_comm ..⟩⟩

/-- Among the rows of the tree that a number of 64 bits can name there is an error that stands
behind the last newline. -/
def Findings.FailsAtEnd (findings : Findings) (source : String) : Prop :=
  ∃ row ∈ findings.root.outline.take UInt64.size,
    row.kind = .error ∧ row.line = Text.lineCount source.toList

instance (findings : Findings) (source : String) : Decidable (findings.FailsAtEnd source) :=
  inferInstanceAs (Decidable (∃ row ∈ findings.root.outline.take UInt64.size,
    row.kind = .error ∧ row.line = Text.lineCount source.toList))

namespace Explorer

/-! ## What keys can mark -/

/-- The lines that keys can mark: those of the source pane, those of the tokens and those of the
rows of the tree that a number of 64 bits can name. -/
inductive State.CanMark (s : State) : Nat → Prop where
  | source {line : Nat} : 1 ≤ line → line ≤ max 1 s.paintedLines.length → CanMark s line
  | token {t : Token} : t ∈ s.tokens → CanMark s t.location.line
  | row {row : OutlineLine} : row ∈ s.outline.take UInt64.size → CanMark s row.line

theorem moveRow_le_greatestRow {row : Nat} (h : row ≤ greatestRow) (delta : Int) (count : Nat) :
    moveRow row delta count ≤ greatestRow := by
  unfold moveRow
  dsimp only
  split <;> omega

/-- A state over the same panes as another one, with a line marked that keys can mark there. -/
structure State.Follows (s origin : State) : Prop where
  painted : s.paintedLines = origin.paintedLines
  tokens : s.tokens = origin.tokens
  outline : s.outline = origin.outline
  selected : s.treePlace.selected.getD 0 ≤ greatestRow
  marks : origin.CanMark s.line

namespace State.Follows

variable {s origin : State}

theorem moveLine (h : s.Follows origin) (delta : Int) : (s.moveLine delta).Follows origin := by
  refine ⟨h.painted, h.tokens, h.outline, h.selected, .source (Nat.le_add_left ..) ?_⟩
  have hrow := moveRow_le (s.line - 1) delta s.paintedLines.length
  rw [← h.painted]
  show moveRow _ _ _ + 1 ≤ _
  omega

theorem moveToken (h : s.Follows origin) (delta : Int) : (s.moveToken delta).Follows origin := by
  unfold State.moveToken
  dsimp only
  split
  · rename_i t ht
    exact ⟨h.painted, h.tokens, h.outline, h.selected,
      .token (h.tokens ▸ List.mem_of_getElem? ht)⟩
  · exact ⟨h.painted, h.tokens, h.outline, h.selected, h.marks⟩

theorem moveNode (h : s.Follows origin) (delta : Int) : (s.moveNode delta).Follows origin := by
  have hrow := moveRow_le_greatestRow h.selected delta s.outline.length
  unfold State.moveNode
  dsimp only
  split
  · rename_i row hfound
    have hnamed : (origin.outline.take UInt64.size)[moveRow (s.treePlace.selected.getD 0) delta
        s.outline.length]? = some row := by
      rw [List.getElem?_take, if_pos (Nat.lt_of_le_of_lt hrow (by decide)), ← h.outline]
      exact hfound
    exact ⟨h.painted, h.tokens, h.outline, hrow, .row (List.mem_of_getElem? hnamed)⟩
  · exact ⟨h.painted, h.tokens, h.outline, hrow, h.marks⟩

theorem move (h : s.Follows origin) (delta : Int) : (s.move delta).Follows origin := by
  unfold State.move
  split
  · exact h.moveLine delta
  · exact h.moveToken delta
  · exact h.moveNode delta
  · exact ⟨h.painted, h.tokens, h.outline, h.selected, h.marks⟩

/-- A key marks nothing but what keys can mark. -/
theorem press (h : s.Follows origin) (key : Key) : (s.press key).Follows origin := by
  obtain ⟨delta, -, hpress⟩ | ⟨-, quit, hpress⟩ := s.press_cases key
  · rw [hpress]
    exact h.move delta
  · rw [hpress]
    exact ⟨h.painted, h.tokens, h.outline, h.selected, h.marks⟩

theorem run (h : s.Follows origin) (keys : List Key) : ∀ t ∈ s.run keys, t.Follows origin :=
  forall_mem_run (P := (State.Follows · origin)) (fun _ key h => h.press key) h keys

end State.Follows

/-- At the start the first line is marked. -/
theorem State.start_follows (shown : String) (findings : Findings) :
    (State.start shown findings).Follows (State.start shown findings) :=
  ⟨rfl, rfl, rfl, Nat.zero_le _, .source (Nat.le_refl 1) (Nat.le_max_left ..)⟩

/-! ## Rows that keys reach -/

theorem State.foldl_press_mem_run (s : State) (keys : List Key) :
    keys.foldl State.press s ∈ s.run keys := by
  induction keys generalizing s with
  | nil => exact List.mem_singleton_self s
  | cons key keys ih => exact List.mem_cons_of_mem _ (ih (s.press key))

/-- The row of the tree that is marked, and with it its line. -/
structure State.OnRow (s : State) (outline : List OutlineLine) (row : Nat) : Prop where
  focus : s.focus = .tree
  outline_eq : s.outline = outline
  selected : s.treePlace.selected = some row
  line : ∀ r ∈ outline[row]?, s.line = r.line

theorem State.moveNode_onRow {s : State} {outline : List OutlineLine} {row : Nat} {delta : Int}
    (hfocus : s.focus = .tree) (houtline : s.outline = outline)
    (hrow : moveRow (s.treePlace.selected.getD 0) delta outline.length = row) :
    (s.move delta).OnRow outline row := by
  subst houtline
  have hmove : s.move delta = s.moveNode delta := by rw [State.move, hfocus]
  rw [hmove, State.moveNode, hrow]
  cases hfound : s.outline[row]? with
  | none => exact ⟨hfocus, rfl, rfl, by simp [hfound]⟩
  | some r => exact ⟨hfocus, rfl, rfl, by simp [hfound]⟩

/-- The pane of the tree, with its first row marked. -/
theorem State.start_onRow (shown : String) (findings : Findings) :
    ([.tab, .tab, .up].foldl State.press (State.start shown findings)).OnRow
      findings.root.outline 0 := by
  let s := [.tab, .tab].foldl State.press (State.start shown findings)
  have hrow : moveRow (s.treePlace.selected.getD 0) (-1) s.outline.length = 0 := Nat.zero_min _
  exact State.moveNode_onRow rfl rfl hrow

theorem State.OnRow.down {s : State} {outline : List OutlineLine} {row : Nat}
    (h : s.OnRow outline row) (hrow : row + 1 < outline.length)
    (hgreatest : row + 1 ≤ greatestRow) :
    (s.press .down).OnRow outline (row + 1) := by
  refine State.moveNode_onRow h.focus h.outline_eq ?_
  rw [h.selected]
  show min (min (row + 1) greatestRow) (outline.length - 1) = row + 1
  omega

/-- Each row that a number of 64 bits can name is marked after some keys. -/
theorem State.exists_onRow (shown : String) (findings : Findings) {row : Nat}
    (hrow : row < findings.root.outline.length) (hgreatest : row ≤ greatestRow) :
    ∃ keys : List Key, (keys.foldl State.press (State.start shown findings)).OnRow
      findings.root.outline row := by
  induction row with
  | zero => exact ⟨_, State.start_onRow shown findings⟩
  | succ row ih =>
      obtain ⟨keys, hkeys⟩ := ih (Nat.lt_of_succ_lt hrow) (Nat.le_of_succ_le hgreatest)
      refine ⟨keys ++ [.down], ?_⟩
      rw [List.foldl_append]
      exact hkeys.down hrow hgreatest

/-! ## Lines that are displayed -/

theorem length_highlight (source : String) (tokens : List Token) :
    (highlight source tokens).length = (Text.lines source.toList).length := by
  rw [← map_char_highlight source tokens, List.length_map]

/-- What keys can mark in an examined source. -/
theorem State.CanMark.line_le {source : String} {settings : Settings} {findings : Findings}
    (h : examine source settings = .ok findings) {line : Nat}
    (hline : (State.start source findings).CanMark line) :
    1 ≤ line ∧ (line ≤ max 1 (Text.lines source.toList).length ∨
      findings.FailsAtEnd source ∧ line = Text.lineCount source.toList) := by
  obtain ⟨htokens, hrows⟩ := line_of_examine h
  cases hline with
  | source hpos hle =>
      rw [show (State.start source findings).paintedLines.length = _ from
        length_highlight source findings.tokens] at hle
      exact ⟨hpos, .inl hle⟩
  | token ht =>
      obtain ⟨hpos, hle⟩ := htokens _ ht
      exact ⟨hpos, .inl (Nat.le_trans hle (Nat.le_max_right ..))⟩
  | @row row hrow =>
      obtain ⟨hpos, hle⟩ := hrows row (List.mem_of_mem_take hrow)
      exact ⟨hpos, hle.imp_right fun herror => ⟨⟨row, hrow, herror⟩, herror.2⟩⟩

/-- Whatever the keys, the marked line is a line of the source, the empty one behind a last newline
counted. It is always a line that is displayed exactly if the source does not end with a newline or
no error stands at its end. -/
theorem marked_line {source : String} {settings : Settings} {findings : Findings}
    (h : examine source settings = .ok findings) :
    (∀ keys, ∀ s ∈ (State.start source findings).run keys,
        1 ≤ s.line ∧ s.line ≤ Text.lineCount source.toList) ∧
      ((∀ keys, ∀ s ∈ (State.start source findings).run keys,
          s.line ≤ max 1 s.paintedLines.length) ↔
        ¬(source.toList.getLast? = some '\n' ∧ findings.FailsAtEnd source)) := by
  have hmarks : ∀ keys, ∀ s ∈ (State.start source findings).run keys,
      s.Follows (State.start source findings) := fun keys =>
    (State.start_follows source findings).run keys
  have hpainted : ∀ {s : State}, s.Follows (State.start source findings) →
      s.paintedLines.length = (Text.lines source.toList).length := fun hs => by
    rw [hs.painted]
    exact length_highlight source findings.tokens
  refine ⟨fun keys s hs => ?_, fun hall => ?_, fun hnone keys s hs => ?_⟩
  · obtain ⟨hpos, hle | ⟨-, hend⟩⟩ := (hmarks keys s hs).marks.line_le h
    · have hlines := Text.length_lines_le source.toList
      have hone : 1 ≤ Text.lineCount source.toList := Nat.le_add_left ..
      exact ⟨hpos, by omega⟩
    · exact ⟨hpos, Nat.le_of_eq hend⟩
  · rintro ⟨hnewline, row, hrow, -, hline⟩
    obtain ⟨i, hi, hget⟩ := List.mem_take_iff_getElem.mp hrow
    obtain ⟨hnamed, hlength⟩ := Nat.lt_min.mp hi
    obtain ⟨keys, honRow⟩ := State.exists_onRow source findings hlength (Nat.le_pred_of_lt hnamed)
    have hrun := (State.start source findings).foldl_press_mem_run keys
    have hle := hall keys _ hrun
    rw [hpainted (hmarks keys _ hrun), honRow.line row (List.getElem?_eq_some_iff.mpr ⟨_, hget⟩),
      hline, Text.lineCount_le_iff] at hle
    exact hle hnewline
  · have hfollows := hmarks keys s hs
    rw [hpainted hfollows]
    obtain ⟨-, hle | ⟨hfails, hend⟩⟩ := hfollows.marks.line_le h
    · exact hle
    · rw [hend, Text.lineCount_le_iff]
      exact fun hnewline => hnone ⟨hnewline, hfails⟩

/-- An error at the end of a source without a last newline is displayed. -/
theorem marked_line_unclosed :
    ∃ findings, examine "int x" {} = .ok findings ∧ findings.FailsAtEnd "int x" ∧
      ∀ keys, ∀ s ∈ (State.start "int x" findings).run keys,
        s.line ≤ max 1 s.paintedLines.length := by
  have hfound : (match examine "int x" {} with
      | .ok findings => decide (findings.FailsAtEnd "int x")
      | .error _ => false) = true := by decide +kernel
  split at hfound
  · rename_i findings h
    exact ⟨findings, h, of_decide_eq_true hfound,
      (marked_line h).2.mpr fun hends => absurd hends.1 (by decide)⟩
  · contradiction

/-- Of a source that ends with a newline the key to the last row of the tree marks a line that is
not displayed, where the error at the end of the source stands. -/
theorem marked_line_behind :
    ∃ findings, examine "int x\n" {} = .ok findings ∧
      ∃ s ∈ (State.start "int x\n" findings).run [.tab, .tab, .toEnd],
        s.paintedLines.length = 1 ∧ s.line = 2 := by
  have hfound : (match examine "int x\n" {} with
      | .ok findings => decide (∃ s ∈ (State.start "int x\n" findings).run [.tab, .tab, .toEnd],
          s.paintedLines.length = 1 ∧ s.line = 2)
      | .error _ => false) = true := by decide +kernel
  split at hfound
  · exact ⟨_, ‹_›, of_decide_eq_true hfound⟩
  · contradiction

end Explorer

end CSurvey
