import Mathlib.Logic.Function.Iterate
import CSurvey.Explorer.Screen
import CSurvey.Proofs.Explorer.PaneEnds

/-! # Reading the survey

The scroll of the survey is held back at the last line of the summary, but it counts the rows that
the lines are broken into. So the last row can be brought into the pane exactly if the rows behind
that many rows fit into it. -/

namespace CSurvey.Explorer

/-! ## Rows of the summary -/

/-- The rows that the summary is broken into. -/
def summaryRows (findings : Findings) (width : Nat) : List (List Grapheme) :=
  wrapLines width ((summary findings).map lineGraphemes)

theorem Wrapping.finish_ne_nil (w : Wrapping) : w.finish ≠ [] := by
  unfold finish
  dsimp only
  generalize (if w.settle.row.isEmpty then _ else _) = rows
  split
  · exact List.cons_ne_nil _ _
  · rename_i hrows
    rw [List.isEmpty_iff] at hrows
    exact List.reverse_ne_nil_iff.mpr hrows

/-- A line takes at least one row. -/
theorem length_wrapLine_pos (width : Nat) (line : List Grapheme) :
    0 < (wrapLine width line).length :=
  List.length_pos_iff.mpr (Wrapping.finish_ne_nil _)

theorem length_le_wrapLines {width : Nat} (hwidth : 0 < width) (lines : List (List Grapheme)) :
    lines.length ≤ (wrapLines width lines).length := by
  rw [wrapLines, if_neg (Nat.ne_of_gt hwidth)]
  induction lines with
  | nil => exact Nat.zero_le _
  | cons line lines ih =>
      have hpos := length_wrapLine_pos width line
      rw [List.flatMap_cons, List.length_append, List.length_cons]
      omega

theorem length_summary_pos (findings : Findings) : 0 < (summary findings).length := by
  simp [summary]

theorem length_summary_le {width : Nat} (hwidth : 0 < width) (findings : Findings) :
    (summary findings).length ≤ (summaryRows findings width).length := by
  have hle := length_le_wrapLines hwidth ((summary findings).map lineGraphemes)
  rwa [List.length_map] at hle

namespace State

variable {s : State} {l : Layout}

/-- The first row of the summary that is drawn, as far down as a terminal scrolls. -/
def firstSummaryRow (s : State) : Nat :=
  min s.surveyScroll greatestScroll

/-- The rows of the summary that are drawn in its pane. -/
def drawnSummary (s : State) (l : Layout) : Grid :=
  surveyRows s s.firstSummaryRow (l.leftWidth - 2) (l.surveyHeight - 2)

/-- The last row of the summary is one of the rows that are drawn in its pane. -/
structure ShowsLastRow (s : State) (l : Layout) : Prop where
  first_lt : s.firstSummaryRow < (summaryRows s.findings (l.leftWidth - 2)).length
  le_behind : (summaryRows s.findings (l.leftWidth - 2)).length ≤
    s.firstSummaryRow + (l.surveyHeight - 2)

/-- The last row is drawn if and only if all rows from the first one on are, and there are any. -/
theorem showsLastRow_iff :
    s.ShowsLastRow l ↔ s.drawnSummary l ≠ [] ∧
      s.drawnSummary l = ((summaryRows s.findings (l.leftWidth - 2)).drop s.firstSummaryRow).map
        (textRow (l.leftWidth - 2) .none) := by
  have hdrawn : s.drawnSummary l =
      (((summaryRows s.findings (l.leftWidth - 2)).drop s.firstSummaryRow).take
        (l.surveyHeight - 2)).map (textRow (l.leftWidth - 2) .none) := rfl
  rw [hdrawn]
  constructor
  · rintro ⟨hfirst, hbehind⟩
    have hfits : ((summaryRows s.findings (l.leftWidth - 2)).drop s.firstSummaryRow).length ≤
        l.surveyHeight - 2 := by
      rw [List.length_drop]
      omega
    rw [List.take_of_length_le hfits, ← List.length_pos_iff, List.length_map, List.length_drop]
    exact ⟨Nat.sub_pos_of_lt hfirst, rfl⟩
  · rintro ⟨hsome, hall⟩
    have hlength := congrArg List.length hall
    rw [← List.length_pos_iff] at hsome
    simp only [List.length_map, List.length_take, List.length_drop] at hlength hsome
    exact ⟨by omega, by omega⟩

/-! ## Scrolling down -/

/-- The state after the key down, when it has been drawn. -/
def scrollDown (l : Layout) (s : State) : State :=
  (s.press .down).settled l

theorem scrollDown_eq (hfocus : s.focus = .survey) (l : Layout) :
    (s.scrollDown l).focus = .survey ∧ (s.scrollDown l).findings = s.findings ∧
      (s.scrollDown l).surveyScroll =
        min (min (s.surveyScroll + 1) (greatestRow - 1)) ((summary s.findings).length - 1) := by
  have hpress : s.press .down = s.scrollSurvey 1 := by
    show s.move 1 = _
    rw [move, hfocus]
  rw [scrollDown, hpress]
  refine ⟨hfocus, rfl, ?_⟩
  show min (min (min (s.surveyScroll + 1) greatestRow) (greatestRow - 1))
    ((summary s.findings).length - 1) = _
  rw [Nat.min_assoc (s.surveyScroll + 1), Nat.min_eq_right (Nat.sub_le ..)]

/-- Each press brings the survey one line further down, until it stands at its last line. -/
theorem iterate_scrollDown (hfocus : s.focus = .survey) (l : Layout) (n : Nat) :
    ((scrollDown l)^[n + 1] s).focus = .survey ∧
      ((scrollDown l)^[n + 1] s).findings = s.findings ∧
      ((scrollDown l)^[n + 1] s).surveyScroll =
        min (min (s.surveyScroll + (n + 1)) (greatestRow - 1))
          ((summary s.findings).length - 1) := by
  induction n with
  | zero => exact scrollDown_eq hfocus l
  | succ n ih =>
      obtain ⟨hstays, hsame, hscroll⟩ := ih
      obtain ⟨hfocus', hsame', hscroll'⟩ := scrollDown_eq hstays l
      rw [Function.iterate_succ_apply']
      refine ⟨hfocus', hsame'.trans hsame, ?_⟩
      rw [hscroll', hsame, hscroll]
      generalize greatestRow - 1 = deepest
      omega

/-- The scroll never skips more rows than the summary has other lines. -/
theorem firstSummaryRow_iterate_le (hfocus : s.focus = .survey)
    (hscroll : s.surveyScroll ≤ (summary s.findings).length - 1) (l : Layout) (n : Nat) :
    ((scrollDown l)^[n] s).findings = s.findings ∧
      ((scrollDown l)^[n] s).firstSummaryRow ≤ (summary s.findings).length - 1 := by
  cases n with
  | zero => exact ⟨rfl, Nat.le_trans (Nat.min_le_left ..) hscroll⟩
  | succ n =>
      obtain ⟨-, hsame, hscroll⟩ := iterate_scrollDown hfocus l n
      refine ⟨hsame, Nat.le_trans (Nat.min_le_left ..) ?_⟩
      rw [hscroll]
      exact Nat.min_le_right ..

/-- When the survey has been drawn, one press of the key to the first row is enough. -/
theorem settled_home_atFirst (hfocus : s.focus = .survey)
    (hlines : (summary s.findings).length ≤ 2 ^ 63) (l : Layout) :
    ((s.settled l).press .home).AtFirst := by
  have hscroll : (s.settled l).surveyScroll ≤ (summary s.findings).length - 1 :=
    Nat.min_le_right ..
  have hsame : (s.settled l).focus = .survey := hfocus
  refine home_atFirst_iff.mpr (.inl ?_)
  rw [hsame]
  show (s.settled l).surveyScroll - 0 ≤ 2 ^ 63
  omega

end State

/-- The last row of the summary can be brought into the pane by presses of the key down, each drawn
before the next, if and only if it is among as many rows as fit behind those that the scroll skips:
one less than the summary has lines, as far down as a terminal scrolls. -/
theorem last_row_readable_iff {s : State} {l : Layout} (hfocus : s.focus = .survey)
    (hwidth : 1 ≤ l.leftWidth - 2) :
    (∃ n, 0 < n ∧ ((State.scrollDown l)^[n] s).ShowsLastRow l) ↔
      (summaryRows s.findings (l.leftWidth - 2)).length ≤
        min ((summary s.findings).length - 1) State.greatestScroll + (l.surveyHeight - 2) := by
  have hlines := length_summary_le hwidth s.findings
  have hpos := length_summary_pos s.findings
  have hgreatest : State.greatestScroll ≤ greatestRow - 1 := by decide
  have hscrolls := State.iterate_scrollDown hfocus l
  generalize greatestRow - 1 = deepest at hgreatest hscrolls
  constructor
  · rintro ⟨n, hn, hfirst, hbehind⟩
    obtain ⟨n, rfl⟩ := Nat.exists_eq_add_of_lt hn
    rw [Nat.zero_add] at hfirst hbehind
    obtain ⟨-, hsame, hscroll⟩ := hscrolls n
    rw [State.firstSummaryRow, hsame, hscroll] at hbehind
    omega
  · intro hle
    obtain ⟨-, hsame, hscroll⟩ := hscrolls (summary s.findings).length
    refine ⟨(summary s.findings).length + 1, Nat.succ_pos _, ?_, ?_⟩
    · rw [State.firstSummaryRow, hsame, hscroll]
      omega
    · rw [State.firstSummaryRow, hsame, hscroll]
      omega

/-- A summary whose lines are one row each, and two of them fit into the pane. -/
theorem last_row_readable_declaration :
    ∃ findings, examine "int x;" {} = .ok findings ∧
      ∃ n, 0 < n ∧ ((State.scrollDown (.ofSize 60 14))^[n]
        ((State.start "int x;" findings).press .backTab)).ShowsLastRow (.ofSize 60 14) := by
  have hfound : (match examine "int x;" {} with
      | .ok findings => decide
          (((State.start "int x;" findings).press .backTab).focus = .survey ∧
            (summaryRows findings 31).length = 3 ∧ (summary findings).length = 3)
      | .error _ => false) = true := by decide +kernel
  split at hfound
  · rename_i findings h
    obtain ⟨hfocus, hrows, hlines⟩ := of_decide_eq_true hfound
    refine ⟨findings, h, (last_row_readable_iff hfocus (by decide)).mpr ?_⟩
    show (summaryRows findings 31).length ≤ min ((summary findings).length - 1) _ + 2
    rw [hrows, hlines]
    decide
  · contradiction

/-- In a narrow pane of one row the end of a message about the source cannot be read: the summary
has two lines and seven rows, and the scroll never skips more than one of them. -/
theorem last_row_not_readable :
    ∃ findings, examine "int x" {} = .ok findings ∧
      ((State.start "int x" findings).press .backTab).focus = .survey ∧
      (summaryRows findings ((Layout.ofSize 40 11).leftWidth - 2)).length = 7 ∧
      ∀ n, ¬((State.scrollDown (.ofSize 40 11))^[n]
        ((State.start "int x" findings).press .backTab)).ShowsLastRow (.ofSize 40 11) := by
  have hfound : (match examine "int x" {} with
      | .ok findings => decide
          ((summaryRows findings ((Layout.ofSize 40 11).leftWidth - 2)).length = 7 ∧
            (summary findings).length = 2)
      | .error _ => false) = true := by decide +kernel
  split at hfound
  · rename_i findings h
    obtain ⟨hrows, hlines⟩ := of_decide_eq_true hfound
    refine ⟨findings, h, rfl, hrows, fun n hshows => ?_⟩
    obtain ⟨hsame, hfirst⟩ := State.firstSummaryRow_iterate_le
      (s := (State.start "int x" findings).press .backTab) rfl (Nat.zero_le _) (.ofSize 40 11) n
    have hbehind := hshows.le_behind
    rw [hsame] at hbehind
    have hskips : _ ≤ (summary findings).length - 1 := hfirst
    have hfits : (summaryRows findings ((Layout.ofSize 40 11).leftWidth - 2)).length ≤ _ + 1 :=
      hbehind
    omega
  · contradiction

end CSurvey.Explorer
