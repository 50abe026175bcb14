import Mathlib.Data.List.Induction
import Mathlib.Data.Nat.Dist
import CSurvey.Explorer.Screen
import CSurvey.Proofs.Explorer.Words

/-! # The window over the source

A window that follows a line shows it, reaches behind the last row no more than it must, and moves
as little as these two allow. This is so from wherever an earlier height or length has left it, and
on words of 64 bits no sum or difference wraps on the way. -/

namespace CSurvey.Explorer

/-! ## One move of the window -/

/-- A window of `height` rows from `offset` on shows `line`, counted from one, and does not reach
behind the last of `total` rows unless all of them fit into it. -/
structure ShowsLine (line height total offset : Nat) : Prop where
  first_le : offset ≤ line - 1
  lt_behind : line - 1 < offset + height
  le_last : offset ≤ total - height

section

variable {offset line height total : Nat}

/-- A window that shows its line stays where it is. -/
theorem scrollTo_of_showsLine (h : ShowsLine line height total offset) :
    scrollTo offset line height total = offset := by
  obtain ⟨hfirst, hbehind, hlast⟩ := h
  unfold scrollTo
  dsimp only
  rw [if_neg (Nat.not_lt_of_le hfirst), if_neg (Nat.not_le_of_lt hbehind)]
  exact Nat.min_eq_left hlast

/-- Of the three rules for a move the last one, which holds the window back, never hides the line:
the rows up to the last are enough to show any of them. -/
theorem showsLine_scrollTo (hpos : 1 ≤ line) (hle : line ≤ total) (hheight : 1 ≤ height) :
    ShowsLine line height total (scrollTo offset line height total) := by
  have hlast := scrollTo_le offset line height total
  have hcases : scrollTo offset line height total ≤ line - 1 ∧
      line - 1 < scrollTo offset line height total + height := by
    unfold scrollTo
    dsimp only
    split
    · omega
    · split <;> omega
  exact ⟨hcases.1, hcases.2, hlast⟩

/-- The windows that show the line are all to one side of where the window stood, or it is one of
them: so that the nearest one is the first that a move comes to. -/
theorem dist_scrollTo_lt {other : Nat} (hother : ShowsLine line height total other)
    (hne : other ≠ scrollTo offset line height total) :
    Nat.dist offset (scrollTo offset line height total) < Nat.dist offset other := by
  obtain ⟨hfirst, hbehind, hlast⟩ := hother
  revert hne
  unfold scrollTo Nat.dist
  dsimp only
  split
  · omega
  · split <;> omega

end

/-! ## Moves on words -/

/-- The move of a window on words of 64 bits, without a result if a sum or a difference wraps. -/
def scrollWord? (offset line height total : UInt64) : Option UInt64 := do
  let row := saturatingSub line 1
  let moved ←
    if row < offset then some row
    else do
      let behind ← checkedAdd offset height
      if behind ≤ row then
        let next ← checkedAdd row 1
        checkedSub next height
      else some offset
  return min moved (saturatingSub total height)

/-- Nothing wraps where the end of the window has a word, and the words are the numbers. -/
theorem scrollWord?_of_lt {offset height : UInt64}
    (hsum : offset.toNat + height.toNat < UInt64.size) (line total : UInt64) :
    ∃ word, scrollWord? offset line height total = some word ∧
      word.toNat = scrollTo offset.toNat line.toNat height.toNat total.toNat := by
  have hrow : (saturatingSub line 1).toNat = line.toNat - 1 := toNat_saturatingSub line 1
  have hlast := toNat_saturatingSub total height
  have hsize := (saturatingSub line 1).toNat_lt_size
  unfold scrollWord? scrollTo
  dsimp only
  by_cases habove : saturatingSub line 1 < offset
  · have habove' := UInt64.lt_iff_toNat_lt.mp habove
    rw [hrow] at habove'
    rw [if_pos habove, if_pos habove']
    refine ⟨_, rfl, ?_⟩
    rw [toNat_min, hrow, hlast]
  · have habove' := mt UInt64.lt_iff_toNat_lt.mpr habove
    rw [hrow] at habove'
    obtain ⟨behind, hbehind, hends⟩ := checkedAdd_of_lt hsum
    rw [if_neg habove, if_neg habove', hbehind]
    by_cases hbelow : behind ≤ saturatingSub line 1
    · have hbelow' := UInt64.le_iff_toNat_le.mp hbelow
      have hline := line.toNat_lt_size
      obtain ⟨next, hnext, hnexts⟩ := checkedAdd_of_lt (a := saturatingSub line 1) (b := 1) (by
        rw [hrow]
        have hone : (1 : UInt64).toNat = 1 := rfl
        simp only [UInt64.size] at hline ⊢
        omega)
      have hone : (1 : UInt64).toNat = 1 := rfl
      obtain ⟨moved, hmoved, hmoves⟩ := checkedSub_of_le (a := next) (b := height) (by omega)
      refine ⟨min moved (saturatingSub total height), ?_, ?_⟩
      · simp [hbelow, hnext, hmoved]
      · rw [hrow, hends] at hbelow'
        rw [if_pos hbelow', toNat_min, hlast, hmoves, hnexts, hrow, hone]
    · have hbelow' := mt UInt64.le_iff_toNat_le.mpr hbelow
      rw [hrow, hends] at hbelow'
      refine ⟨min offset (saturatingSub total height), ?_, ?_⟩
      · simp [hbelow]
      · rw [if_neg hbelow', toNat_min, hlast]

/-! ## Runs of moves -/

/-- What a window is to show: a line, counted from one, in so many rows, of so many lines. -/
structure View where
  line : UInt64
  height : UInt64
  total : UInt64

namespace View

/-- The first row of a window that has shown some views, in this order, from its start on. -/
def offset (views : List View) : Nat :=
  views.foldl (fun offset v => scrollTo offset v.line.toNat v.height.toNat v.total.toNat) 0

/-- The same on words, without a result if one of them wraps. -/
def offset? (views : List View) : Option UInt64 :=
  views.foldlM (fun offset v => scrollWord? offset v.line v.height v.total) 0

/-- A view of an existing line in at least one row, by a window that ends at a row with a word. -/
structure Fits (v : View) (offset : Nat) : Prop where
  line_pos : 1 ≤ v.line.toNat
  line_le : v.line.toNat ≤ v.total.toNat
  height_pos : 1 ≤ v.height.toNat
  end_lt : offset + v.height.toNat < UInt64.size

/-- A run of moves wraps nowhere if each of its views fits the window that the views before it have
left. -/
theorem offset?_of_fits (views : List View)
    (hfits : ∀ before v, before ++ [v] <+: views → v.Fits (offset before)) :
    ∃ word, offset? views = some word ∧ word.toNat = offset views := by
  induction views using List.reverseRecOn with
  | nil => exact ⟨0, rfl, rfl⟩
  | append_singleton views v ih =>
      obtain ⟨word, hword, hnumber⟩ := ih fun before w hbegins =>
        hfits before w (hbegins.trans (List.prefix_append ..))
      have hend := (hfits views v (List.prefix_refl _)).end_lt
      rw [← hnumber] at hend
      obtain ⟨next, hnext, hmoved⟩ := scrollWord?_of_lt hend v.line v.total
      refine ⟨next, ?_, ?_⟩
      · rw [offset?, List.foldlM_append, ← offset?, hword]
        simpa using hnext
      · rw [hmoved, hnumber, offset, offset, List.foldl_append, List.foldl_cons, List.foldl_nil]

/-- A window that shows a view ends at a row with a word. -/
theorem end_lt_of_showsLine {v : View} {offset : Nat}
    (h : ShowsLine v.line.toNat v.height.toNat v.total.toNat offset) :
    offset + v.height.toNat < UInt64.size := by
  have hlast := h.le_last
  have htotal := v.total.toNat_lt_size
  have hheight := v.height.toNat_lt_size
  omega

/-- Whatever a window has shown before, nothing wraps when it moves on to one more view that fits
it; it shows the line then, from the nearest row to where it stood before, and showing the view
again does not move it. -/
theorem window_follows (views : List View) (v : View)
    (hfits : ∀ before w, before ++ [w] <+: views ++ [v] → w.Fits (offset before)) :
    ∃ word, offset? (views ++ [v]) = some word ∧ word.toNat = offset (views ++ [v]) ∧
      ShowsLine v.line.toNat v.height.toNat v.total.toNat word.toNat ∧
      (∀ other, ShowsLine v.line.toNat v.height.toNat v.total.toNat other → other ≠ word.toNat →
        Nat.dist (offset views) word.toNat < Nat.dist (offset views) other) ∧
      scrollWord? word v.line v.height v.total = some word := by
  obtain ⟨word, hword, hnumber⟩ := offset?_of_fits (views ++ [v]) hfits
  have hfit := hfits views v (List.prefix_refl _)
  have hmoved : word.toNat =
      scrollTo (offset views) v.line.toNat v.height.toNat v.total.toNat := by
    rw [hnumber, offset, offset, List.foldl_append, List.foldl_cons, List.foldl_nil]
  have hshows : ShowsLine v.line.toNat v.height.toNat v.total.toNat word.toNat := by
    rw [hmoved]
    exact showsLine_scrollTo hfit.line_pos hfit.line_le hfit.height_pos
  obtain ⟨again, hagain, hstays⟩ :=
    scrollWord?_of_lt (end_lt_of_showsLine hshows) v.line v.total
  rw [scrollTo_of_showsLine hshows, UInt64.toNat_inj] at hstays
  refine ⟨word, hword, hnumber, hshows, fun other hother hne => ?_, hstays ▸ hagain⟩
  rw [hmoved] at hne ⊢
  exact dist_scrollTo_lt hother hne

/-- A line far down, and then one further up in a window that has become higher than the source. -/
theorem window_follows_resized :
    offset [⟨30, 10, 100⟩] = 20 ∧
      ∃ word, offset? [⟨30, 10, 100⟩, ⟨5, 60, 50⟩] = some word ∧
        ShowsLine 5 60 50 word.toNat ∧ scrollWord? word 5 60 50 = some word := by
  have hfits : ∀ before w, before ++ [w] <+: [⟨30, 10, 100⟩] ++ [(⟨5, 60, 50⟩ : View)] →
      w.Fits (offset before) := by
    intro before w hbegins
    match before, hbegins with
    | [], hbegins =>
        obtain rfl : w = ⟨30, 10, 100⟩ := by simpa using hbegins
        exact ⟨by decide, by decide, by decide, by decide⟩
    | [_], hbegins =>
        obtain ⟨rfl, rfl⟩ : _ = (⟨30, 10, 100⟩ : View) ∧ w = ⟨5, 60, 50⟩ := by simpa using hbegins
        exact ⟨by decide, by decide, by decide, by decide⟩
    | _ :: _ :: _, hbegins =>
        have hle := hbegins.length_le
        simp at hle
  obtain ⟨word, hword, -, hshows, -, hstays⟩ := window_follows _ _ hfits
  exact ⟨by decide, word, hword, hshows, hstays⟩

end View

/-! ## The window of the explorer -/

/-- When the explorer has been drawn, the window over the source shows the marked line, if that line
is displayed at all. -/
theorem State.settled_showsLine {s : State} (hpos : 1 ≤ s.line)
    (hle : s.line ≤ s.paintedLines.length) (l : Layout) :
    ShowsLine s.line (sourceHeight l.sourceHeight) s.paintedLines.length
      (s.settled l).sourceOffset :=
  showsLine_scrollTo hpos hle (Nat.le_max_left ..)

end CSurvey.Explorer
