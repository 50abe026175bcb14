import CSurvey.Proofs.Token.Joining

/-! # Lines and places

The lines of a text that are displayed are cut out of it without regard to places. A character in a
column of a line stands, as the lexer counts, at the place of that line and column. -/

namespace CSurvey

/-! ## Places in order -/

/-- No two places behind each other are the same. -/
theorem Position.behind_append_ne (passed : List Char) (c : Char) (cs : List Char) :
    Position.behind (passed ++ c :: cs) ≠ .behind passed := by
  intro h
  have hline := congrArg Position.line h
  have hcolumn := congrArg Position.column h
  simp only [behind, List.count_append, List.reverse_append, Nat.add_left_cancel_iff,
    Nat.add_eq_left] at hline hcolumn
  have hall : ∀ d ∈ (c :: cs).reverse, decide (d ≠ '\n') = true := by
    intro d hd
    have hne : d ≠ '\n' := by
      rintro rfl
      exact List.count_eq_zero.mp hline (List.mem_reverse.mp hd)
    exact decide_eq_true hne
  rw [List.takeWhile_append_of_pos hall, List.length_append, List.length_reverse,
    List.length_cons] at hcolumn
  omega

/-- Behind lines, places are those of a text of its own, further down. -/
theorem Position.behind_newline (above below : List Char) :
    Position.behind (above ++ '\n' :: below) =
      (Position.behind below).lowered (above.count '\n' + 1) := by
  have hafter : ∀ cs : List Char, Position.behind cs = Position.start.after cs := by
    intro cs
    rw [← behind_nil, after_behind, List.nil_append]
  rw [hafter, hafter, after_append, after_cons, next_after, after_lowered]

namespace Text

/-! ## Characters of lines -/

theorem getElem?_of_dropReturn {row : List Char} {column : Nat} {c : Char}
    (h : (dropReturn row)[column]? = some c) : row[column]? = some c := by
  unfold dropReturn at h
  split at h
  · rw [List.getElem?_dropLast] at h
    split at h
    · exact h
    · contradiction
  · exact h

/-- A character within the first line of a text. -/
theorem behind_of_getElem? {row more : List Char} {column : Nat} {c : Char} (hrow : '\n' ∉ row)
    (h : row[column]? = some c) :
    ∃ before after, row ++ more = before ++ c :: after ∧ c ≠ '\n' ∧
      Position.behind before = ⟨1, column + 1⟩ := by
  obtain ⟨hlt, rfl⟩ := List.getElem?_eq_some_iff.mp h
  have hbefore : '\n' ∉ row.take column := fun hm => hrow (List.mem_of_mem_take hm)
  refine ⟨row.take column, row.drop (column + 1) ++ more, ?_, ?_, ?_⟩
  · rw [← List.cons_append, List.getElem_cons_drop, ← List.append_assoc, List.take_append_drop]
  · exact fun hc => hrow (hc ▸ List.getElem_mem hlt)
  · have hall : ∀ d ∈ (row.take column).reverse, decide (d ≠ '\n') = true := fun d hd =>
      decide_eq_true fun hd' => hbefore (hd' ▸ List.mem_reverse.mp hd)
    rw [Position.behind, List.count_eq_zero.mpr hbefore, List.takeWhile_eq_self_iff.mpr hall,
      List.length_reverse, List.length_take, Nat.min_eq_left (Nat.le_of_lt hlt),
      Nat.add_comm 1 column]

theorem behind_of_linesFrom {begun cs : List Char} {line column : Nat} {c : Char}
    (hbegun : '\n' ∉ begun) (h : (linesFrom begun cs)[line]?.bind (·[column]?) = some c) :
    ∃ before after, begun.reverse ++ cs = before ++ c :: after ∧ c ≠ '\n' ∧
      Position.behind before = ⟨line + 1, column + 1⟩ := by
  induction cs generalizing begun line with
  | nil =>
      unfold linesFrom at h
      split at h
      · simp at h
      · cases line with
        | zero => exact behind_of_getElem? (by simpa using hbegun) (by simpa using h)
        | succ line => simp at h
  | cons d cs ih =>
      unfold linesFrom at h
      split at h
      · rename_i hd
        subst hd
        cases line with
        | zero =>
            exact behind_of_getElem? (by simpa using hbegun)
              (getElem?_of_dropReturn (by simpa using h))
        | succ line =>
            rw [List.getElem?_cons_succ] at h
            obtain ⟨before, after, hcs, hc, hplace⟩ := ih List.not_mem_nil h
            refine ⟨begun.reverse ++ '\n' :: before, after, ?_, hc, ?_⟩
            · rw [List.reverse_nil, List.nil_append] at hcs
              rw [hcs, List.append_assoc, List.cons_append]
            · rw [Position.behind_newline, hplace, Position.lowered, List.count_reverse,
                List.count_eq_zero.mpr hbegun, Nat.add_right_comm]
      · rename_i hd
        have hd' : '\n' ∉ d :: begun := by
          simpa [hbegun] using fun h : '\n' = d => hd h.symm
        have hlater := ih hd' h
        rwa [List.reverse_cons, List.append_assoc] at hlater

/-- A character that is displayed stands in the text, at the place of its line and column. -/
theorem behind_of_lines {text : List Char} {line column : Nat} {c : Char}
    (h : (lines text)[line]?.bind (·[column]?) = some c) :
    ∃ before after, text = before ++ c :: after ∧ c ≠ '\n' ∧
      Position.behind before = ⟨line + 1, column + 1⟩ :=
  behind_of_linesFrom (List.not_mem_nil) h

/-! ## The number of lines -/

theorem length_linesFrom {begun : List Char} (hbegun : '\n' ∉ begun) (cs : List Char) :
    (linesFrom begun cs).length = cs.count '\n' +
      if (begun.reverse ++ cs).getLast?.all (· = '\n') then 0 else 1 := by
  induction cs generalizing begun with
  | nil =>
      cases begun with
      | nil => rfl
      | cons d ds =>
          have hd : d ≠ '\n' := fun h => hbegun (h ▸ List.mem_cons_self ..)
          simp [linesFrom, hd]
  | cons c cs ih =>
      by_cases hc : c = '\n'
      · subst hc
        have hlast : (begun.reverse ++ '\n' :: cs).getLast?.all (· = '\n') =
            ([].reverse ++ cs).getLast?.all (· = '\n') := by
          cases cs with
          | nil => simp
          | cons d ds => simp [List.getLast?_cons]
        rw [linesFrom, if_pos rfl, List.length_cons, ih List.not_mem_nil, hlast,
          List.count_cons_self, Nat.add_right_comm]
      · have hc' : '\n' ∉ c :: begun := by
          simpa [hbegun] using fun h : '\n' = c => hc h.symm
        rw [linesFrom, if_neg hc, ih hc', List.count_cons_of_ne hc, List.reverse_cons,
          List.append_assoc]
        rfl

/-- There is a line for each newline, and one for what follows the last of them. -/
theorem length_lines (text : List Char) :
    (lines text).length = text.count '\n' + if text.getLast?.all (· = '\n') then 0 else 1 :=
  length_linesFrom List.not_mem_nil text

/-- A character stands on a line that is displayed, the newline that ends the line included. -/
theorem line_le_of_append {text before after : List Char} {c : Char}
    (htext : text = before ++ c :: after) :
    (Position.behind before).line ≤ (lines text).length := by
  rw [length_lines, htext]
  show 1 + before.count '\n' ≤ _
  rw [List.count_append]
  by_cases hmore : '\n' ∈ c :: after
  · have hpos := List.count_pos_iff.mpr hmore
    omega
  · have hlast : ¬(before ++ c :: after).getLast?.all (· = '\n') = true := by
      rw [List.getLast?_append, List.getLast?_eq_some_getLast (List.cons_ne_nil c after)]
      intro h
      have hnewline : (c :: after).getLast (List.cons_ne_nil c after) = '\n' :=
        of_decide_eq_true h
      exact hmore (hnewline ▸ List.getLast_mem _)
    rw [if_neg hlast]
    omega

end Text

end CSurvey
