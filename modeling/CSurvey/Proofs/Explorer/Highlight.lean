import CSurvey.Explorer.Highlight
import CSurvey.Proofs.Token.Lines

/-! # Coloured lines

The lexer counts places while it reads; the coloured lines are cut out of the source and then
painted by walking over the texts of the tokens once more. Both agree: each character that is
displayed has the style of the one token that has it in its text. -/

namespace CSurvey

/-! ## Which token has a character -/

/-- The text of the token has the character at the place. -/
def Token.Shows (t : Token) (place : Position) (c : Char) : Prop :=
  ∃ before after, t.text.toList = before ++ c :: after ∧ t.location.after before = place

/-- The text of the token goes over the place. -/
def Token.Covers (t : Token) (place : Position) : Prop :=
  ∃ c, t.Shows place c

namespace Tiles

variable {passed rest before after : List Char} {c : Char} {tokens : List Token}

/-- What a token covers is a place of the text that it was found in. -/
theorem exists_of_covers (h : Tiles passed rest tokens) {t : Token} (ht : t ∈ tokens)
    {place : Position} (hplace : t.Covers place) :
    ∃ before c after, rest = before ++ c :: after ∧ place = .behind (passed ++ before) := by
  induction h with
  | finished passed =>
      obtain rfl := List.mem_singleton.mp ht
      obtain ⟨c, before, after, htext, -⟩ := hplace
      simp [Token.endOfInput] at htext
  | @blank passed d rest tokens _ _ ih =>
      obtain ⟨before, c, after, rfl, rfl⟩ := ih ht
      exact ⟨d :: before, c, after, rfl, by simp⟩
  | @token passed u rest tokens _ hl _ ih =>
      rcases List.mem_cons.mp ht with rfl | ht
      · obtain ⟨c, before, after, htext, rfl⟩ := hplace
        refine ⟨before, c, after ++ rest, by rw [htext, List.append_assoc]; rfl, ?_⟩
        rw [hl, Position.after_behind]
      · obtain ⟨before, c, after, rfl, rfl⟩ := ih ht
        exact ⟨u.text.toList ++ before, c, after, by simp, by simp⟩

/-- No token covers a place before its text. -/
theorem not_covers_of_passed {d : Char} {more : List Char}
    (h : Tiles (passed ++ d :: more) rest tokens) : ∀ t ∈ tokens, ¬t.Covers (.behind passed) := by
  intro t ht hplace
  obtain ⟨before, c, after, -, hsame⟩ := h.exists_of_covers ht hplace
  rw [List.append_assoc, List.cons_append] at hsame
  exact Position.behind_append_ne passed d (more ++ before) hsame.symm

/-- A character of a text is shown by one token and its place is covered by no other; or it is white
space and its place is covered by none. -/
theorem shows_or_isGap (h : Tiles passed rest tokens) (hrest : rest = before ++ c :: after) :
    (∃ earlier t later, tokens = earlier ++ t :: later ∧ t.Shows (.behind (passed ++ before)) c ∧
        ∀ u ∈ earlier ++ later, ¬u.Covers (.behind (passed ++ before))) ∨
      Token.isGap c = true ∧ ∀ u ∈ tokens, ¬u.Covers (.behind (passed ++ before)) := by
  induction h generalizing before with
  | finished passed => simp at hrest
  | @blank passed d rest tokens hd h ih =>
      cases before with
      | nil =>
          obtain ⟨rfl, rfl⟩ := List.cons.inj hrest
          rw [List.append_nil]
          exact .inr ⟨hd, h.not_covers_of_passed⟩
      | cons e before =>
          obtain ⟨rfl, rfl⟩ := List.cons.inj hrest
          have hlater := ih rfl
          rwa [List.append_assoc] at hlater
  | @token passed t rest tokens ht hl h ih =>
      -- What stands behind the text of the first token is covered by later ones.
      have hbehind : ∀ more, rest = more ++ c :: after → before = t.text.toList ++ more →
          (∃ earlier u later, t :: tokens = earlier ++ u :: later ∧
              u.Shows (.behind (passed ++ before)) c ∧
              ∀ v ∈ earlier ++ later, ¬v.Covers (.behind (passed ++ before))) ∨
            Token.isGap c = true ∧ ∀ v ∈ t :: tokens, ¬v.Covers (.behind (passed ++ before)) := by
        rintro more hmore rfl
        have hfirst : ¬t.Covers (.behind (passed ++ (t.text.toList ++ more))) := by
          rintro ⟨d, start, inner, htext, hplace⟩
          rw [hl, Position.after_behind, htext] at hplace
          rw [List.append_assoc, List.cons_append, ← List.append_assoc] at hplace
          exact Position.behind_append_ne _ _ _ hplace.symm
        rw [← List.append_assoc] at hfirst ⊢
        rcases ih hmore with ⟨earlier, u, later, rfl, hu, hothers⟩ | ⟨hgap, hnone⟩
        · refine .inl ⟨t :: earlier, u, later, rfl, hu, ?_⟩
          rw [List.cons_append, List.forall_mem_cons]
          exact ⟨hfirst, hothers⟩
        · exact .inr ⟨hgap, List.forall_mem_cons.mpr ⟨hfirst, hnone⟩⟩
      rcases List.append_eq_append_iff.mp hrest with ⟨more, hbefore, hmore⟩ | ⟨more, htext, hmore⟩
      · exact hbehind more hmore hbefore
      · cases more with
        | nil => exact hbehind [] hmore.symm (by simpa using htext.symm)
        | cons d more =>
            obtain ⟨rfl, -⟩ := List.cons.inj hmore
            refine .inl ⟨[], t, tokens, rfl, ⟨before, more, htext, ?_⟩, ?_⟩
            · rw [hl, Position.after_behind]
            · rw [htext, ← List.append_assoc] at h
              exact h.not_covers_of_passed

end Tiles

/-- What is read as a newline is one. -/
theorem Cursor.Reads.text_of_newline {c : Cursor} {tokens : List Token} (h : c.Reads tokens)
    {t : Token} (ht : t ∈ tokens) (hk : t.kind = .newline) : t.text = "\n" := by
  induction h with
  | finished l =>
      obtain rfl := List.mem_singleton.mp ht
      contradiction
  | newline _ ih =>
      rcases List.mem_cons.mp ht with rfl | ht
      · rfl
      · exact ih ht
  | blank _ _ ih => exact ih ht
  | piece _ hfirst _ ih =>
      rcases List.mem_cons.mp ht with rfl | ht
      · exact absurd hk (Token.Lexeme.first_kind hfirst).1
      · exact ih ht

/-- A token that shows anything but the end of a line is visible. -/
theorem Token.Shows.isVisible {source : String} {tokens : List Token} {t : Token}
    {place : Position} {c : Char} (h : t.Shows place c) (htokens : tokenize source = .ok tokens)
    (ht : t ∈ tokens) (hc : c ≠ '\n') : t.isVisible = true := by
  obtain ⟨before, after, htext, -⟩ := h
  have hnewline : t.kind ≠ .newline := by
    intro hk
    rw [(tokenize_eq_ok_iff.mp htokens).text_of_newline ht hk] at htext
    cases before with
    | nil => exact hc (List.cons.inj htext).1.symm
    | cons d before => simp at htext
  have hend : t.kind ≠ .endOfInput := by
    intro hk
    obtain ⟨inner, rfl, hinner⟩ := (tiles_of_tokenize htokens).ending
    rcases List.mem_append.mp ht with ht | ht
    · exact (hinner t ht).kind_ne hk
    · obtain rfl := List.mem_singleton.mp ht
      simp [endOfInput] at htext
  unfold Token.isVisible
  split
  · exact absurd ‹_› hnewline
  · exact absurd ‹_› hend
  · rfl

namespace Explorer

/-! ## Painting -/

/-- The glyph in another style. -/
def Glyph.painted (style : Style) (g : Glyph) : Glyph :=
  { g with style }

/-- The glyph in a column of a line, both counted from zero. -/
def cell? (lines : Array (Array Glyph)) (line column : Nat) : Option Glyph :=
  lines[line]?.bind (·[column]?)

variable {style : Style} {lines : Array (Array Glyph)} {line column : Nat}

theorem cell?_paintPlace_self (style : Style) (lines : Array (Array Glyph)) (line column : Nat) :
    cell? (paintPlace style ⟨line + 1, column + 1⟩ lines) line column =
      (cell? lines line column).map (Glyph.painted style) := by
  rw [paintPlace, if_neg (Nat.succ_ne_zero line), cell?, Nat.add_sub_cancel,
    Array.getElem?_modify, if_pos rfl, cell?]
  cases lines[line]? with
  | none => rfl
  | some glyphs =>
      show (paintColumn style (column + 1) glyphs)[column]? = _
      rw [paintColumn, if_neg (Nat.succ_ne_zero column), Nat.add_sub_cancel,
        Array.getElem?_modify, if_pos rfl]
      rfl

theorem cell?_paintPlace_of_ne {place : Position} (h : place ≠ ⟨line + 1, column + 1⟩) :
    cell? (paintPlace style place lines) line column = cell? lines line column := by
  obtain ⟨_ | placeLine, placeColumn⟩ := place
  · rfl
  · rw [paintPlace, if_neg (Nat.succ_ne_zero placeLine), cell?, Nat.add_sub_cancel,
      Array.getElem?_modify]
    split
    · rename_i hline
      subst hline
      rw [cell?]
      cases lines[placeLine]? with
      | none => rfl
      | some glyphs =>
          show (paintColumn style placeColumn glyphs)[column]? = glyphs[column]?
          cases placeColumn with
          | zero => rfl
          | succ placeColumn =>
              have hcolumn : placeColumn ≠ column := fun hsame => h (by rw [hsame])
              rw [paintColumn, if_neg (Nat.succ_ne_zero placeColumn), Nat.add_sub_cancel,
                Array.getElem?_modify, if_neg hcolumn]
    · rfl

/-- Where a text does not stand, painting it changes nothing. -/
theorem cell?_paintText_of_not {place : Position} {cs : List Char}
    (h : ∀ before c after, cs = before ++ c :: after →
      place.after before ≠ ⟨line + 1, column + 1⟩) :
    cell? (paintText style place lines cs) line column = cell? lines line column := by
  induction cs generalizing place lines with
  | nil => rfl
  | cons c cs ih =>
      have hlater : ∀ before d after, cs = before ++ d :: after →
          (place.next c).after before ≠ ⟨line + 1, column + 1⟩ := by
        rintro before d after rfl
        exact h (c :: before) d after rfl
      rw [paintText, ih hlater]
      split
      · rfl
      · exact cell?_paintPlace_of_ne (h [] c cs rfl)

/-- What is painted in a style stays so while the same text is painted. -/
theorem cell?_paintText_of_painted {place : Position} {cs : List Char} {g : Glyph}
    (h : cell? lines line column = some (g.painted style)) :
    cell? (paintText style place lines cs) line column = some (g.painted style) := by
  induction cs generalizing place lines with
  | nil => exact h
  | cons c cs ih =>
      refine ih ?_
      split
      · exact h
      · by_cases hplace : place = ⟨line + 1, column + 1⟩
        · rw [hplace, cell?_paintPlace_self, h]
          rfl
        · rw [cell?_paintPlace_of_ne hplace, h]

/-- Where a character of a text stands, painting the text gives its style. -/
theorem cell?_paintText {place : Position} {before after : List Char} {c : Char} {g : Glyph}
    (hc : c ≠ '\n') (hplace : place.after before = ⟨line + 1, column + 1⟩)
    (hg : cell? lines line column = some g) :
    cell? (paintText style place lines (before ++ c :: after)) line column =
      some (g.painted style) := by
  induction before generalizing place lines g with
  | nil =>
      obtain rfl : place = ⟨line + 1, column + 1⟩ := hplace
      rw [List.nil_append, paintText, if_neg hc]
      refine cell?_paintText_of_painted ?_
      rw [cell?_paintPlace_self, hg]
      rfl
  | cons d before ih =>
      have hpainted : ∃ g', cell? (if d = '\n' then lines else paintPlace style place lines) line
          column = some g' ∧ g'.painted style = g.painted style := by
        split
        · exact ⟨g, hg, rfl⟩
        · by_cases hd : place = ⟨line + 1, column + 1⟩
          · exact ⟨g.painted style, by rw [hd, cell?_paintPlace_self, hg]; rfl, rfl⟩
          · exact ⟨g, by rw [cell?_paintPlace_of_ne hd, hg], rfl⟩
      obtain ⟨g', hg', hsame⟩ := hpainted
      rw [← hsame]
      exact ih hplace hg'

/-- A token that does not cover a place paints nothing there. -/
theorem cell?_paintText_of_not_covers {t : Token}
    (h : ¬t.Covers ⟨line + 1, column + 1⟩) :
    cell? (paintText style t.location lines t.text.toList) line column =
      cell? lines line column :=
  cell?_paintText_of_not fun before c after htext hplace => h ⟨c, before, after, htext, hplace⟩

/-- Whether the token is a name that the next of the tokens behind it calls. -/
def isCalled (t : Token) (later : List Token) : Bool :=
  t.kind = .identifier && later.head?.any fun next => next.kind = .delimiter .leftParen

theorem cell?_paintTokens_of_not_covers {tokens : List Token}
    (h : ∀ t ∈ tokens, ¬t.Covers ⟨line + 1, column + 1⟩) :
    cell? (paintTokens lines tokens) line column = cell? lines line column := by
  induction tokens generalizing lines with
  | nil => rfl
  | cons t ts ih =>
      obtain ⟨ht, hts⟩ := List.forall_mem_cons.mp h
      rw [paintTokens, ih hts, cell?_paintText_of_not_covers ht]

/-- The only token that covers a place gives its style to the glyph there. -/
theorem cell?_paintTokens {earlier later : List Token} {t : Token} {c : Char} {g : Glyph}
    (ht : t.Shows ⟨line + 1, column + 1⟩ c) (hc : c ≠ '\n')
    (hothers : ∀ u ∈ earlier ++ later, ¬u.Covers ⟨line + 1, column + 1⟩)
    (hg : cell? lines line column = some g) :
    cell? (paintTokens lines (earlier ++ t :: later)) line column =
      some (g.painted (kindStyle t.kind (isCalled t later))) := by
  induction earlier generalizing lines with
  | nil =>
      obtain ⟨before, after, htext, hplace⟩ := ht
      rw [List.nil_append] at hothers ⊢
      rw [paintTokens, cell?_paintTokens_of_not_covers hothers, htext]
      exact cell?_paintText hc hplace hg
  | cons u earlier ih =>
      rw [List.cons_append] at hothers
      obtain ⟨hu, hothers⟩ := List.forall_mem_cons.mp hothers
      rw [List.cons_append, paintTokens]
      exact ih hothers ((cell?_paintText_of_not_covers hu).trans hg)

/-! ## Painting keeps the characters -/

/-- Changes that a function does not see. -/
theorem toList_map_modify {α β : Type} (f : α → α) (g : α → β) (h : ∀ a, g (f a) = g a)
    (as : Array α) (i : Nat) : (as.modify i f).toList.map g = as.toList.map g := by
  refine List.ext_getElem? fun j => ?_
  rw [Array.toList_modify, List.getElem?_map, List.getElem?_map, List.getElem?_modify]
  cases as.toList[j]? with
  | none => rfl
  | some a =>
      show some (g (if i = j then f a else a)) = some (g a)
      split
      · rw [h]
      · rfl

/-- The characters of painted lines. -/
def characters (lines : Array (Array Glyph)) : List (List Char) :=
  lines.toList.map fun glyphs => glyphs.toList.map Glyph.char

theorem characters_paintPlace (style : Style) (place : Position) (lines : Array (Array Glyph)) :
    characters (paintPlace style place lines) = characters lines := by
  have hcolumn : ∀ glyphs, (paintColumn style place.column glyphs).toList.map Glyph.char =
      glyphs.toList.map Glyph.char := by
    intro glyphs
    unfold paintColumn
    split
    · rfl
    · exact toList_map_modify (Glyph.painted style) Glyph.char (fun _ => rfl) glyphs _
  unfold paintPlace
  split
  · rfl
  · exact toList_map_modify _ _ hcolumn lines _

theorem characters_paintText (style : Style) (place : Position) (lines : Array (Array Glyph))
    (cs : List Char) : characters (paintText style place lines cs) = characters lines := by
  induction cs generalizing place lines with
  | nil => rfl
  | cons c cs ih =>
      rw [paintText, ih]
      split
      · rfl
      · exact characters_paintPlace style place lines

theorem characters_paintTokens (lines : Array (Array Glyph)) (tokens : List Token) :
    characters (paintTokens lines tokens) = characters lines := by
  induction tokens generalizing lines with
  | nil => rfl
  | cons t ts ih => rw [paintTokens, ih, characters_paintText]

/-! ## Coloured sources -/

/-- The lines of a text in the plain style. -/
def plainLines (text : List Char) : Array (Array Glyph) :=
  ((Text.lines text).map fun line => (line.map fun c => Glyph.mk c .none).toArray).toArray

theorem characters_plainLines (text : List Char) :
    characters (plainLines text) = Text.lines text := by
  rw [characters, plainLines, List.map_map]
  refine (List.map_congr_left fun line _ => ?_).trans (List.map_id _)
  show (line.map _).map Glyph.char = line
  rw [List.map_map]
  exact List.map_id line

theorem cell?_plainLines (text : List Char) (line column : Nat) :
    cell? (plainLines text) line column =
      ((Text.lines text)[line]?.bind (·[column]?)).map fun c => Glyph.mk c .none := by
  rw [cell?, plainLines, List.getElem?_toArray, List.getElem?_map]
  cases (Text.lines text)[line]? with
  | none => rfl
  | some cs =>
      show (cs.map _).toArray[column]? = cs[column]?.map _
      rw [List.getElem?_toArray, List.getElem?_map]

/-- The glyph in a column of a coloured line. -/
theorem getElem?_highlight (source : String) (tokens : List Token) (line column : Nat) :
    (highlight source tokens)[line]?.bind (·[column]?) =
      cell? (paintTokens (plainLines source.toList) (tokens.filter Token.isVisible)) line
        column := by
  show ((paintTokens (plainLines source.toList) _).toList.map Array.toList)[line]?.bind _ = _
  rw [cell?, List.getElem?_map, Array.getElem?_toList]
  cases (paintTokens (plainLines source.toList) (tokens.filter Token.isVisible))[line]? with
  | none => rfl
  | some glyphs => exact Array.getElem?_toList

/-- The characters of the coloured lines of a source are those of its lines. -/
theorem map_char_highlight (source : String) (tokens : List Token) :
    (highlight source tokens).map (fun line => line.map Glyph.char) =
      Text.lines source.toList := by
  rw [← characters_plainLines,
    ← characters_paintTokens (plainLines source.toList) (tokens.filter Token.isVisible)]
  exact List.map_map

/-- The coloured lines of a source are its lines, and each of their characters has the style of the
one token that has it in its text; or it is white space that no token covers, and plain. A name is
drawn as a function if the next token that is visible is a left parenthesis. -/
theorem highlight_tokens {source : String} {tokens : List Token}
    (h : tokenize source = .ok tokens) :
    (highlight source tokens).map (fun line => line.map Glyph.char) = Text.lines source.toList ∧
      ∀ line column g, (highlight source tokens)[line]?.bind (·[column]?) = some g →
        (∃ earlier t later, tokens = earlier ++ t :: later ∧
            t.Shows ⟨line + 1, column + 1⟩ g.char ∧
            (∀ u ∈ earlier ++ later, ¬u.Covers ⟨line + 1, column + 1⟩) ∧
            g.style = kindStyle t.kind (isCalled t (later.filter Token.isVisible))) ∨
          (∀ t ∈ tokens, ¬t.Covers ⟨line + 1, column + 1⟩) ∧ g.style = .none ∧
            Text.isBlank g.char = true := by
  refine ⟨map_char_highlight source tokens, fun line column g hg => ?_⟩
  have hvisible : ∀ {us : List Token} {place : Position}, (∀ u ∈ us, ¬u.Covers place) →
      ∀ u ∈ us.filter Token.isVisible, ¬u.Covers place := fun hus u hu =>
    hus u ((List.mem_filter.mp hu).1)
  -- The glyph was plain before the tokens were painted, and has its character from the line.
  obtain ⟨c, hline⟩ : ∃ c, (Text.lines source.toList)[line]?.bind (·[column]?) = some c := by
    obtain ⟨row, hrow, hcolumn⟩ := Option.bind_eq_some_iff.mp hg
    refine ⟨g.char, ?_⟩
    rw [← map_char_highlight source tokens, List.getElem?_map, hrow]
    show (row.map Glyph.char)[column]? = some g.char
    rw [List.getElem?_map, hcolumn]
    rfl
  rw [getElem?_highlight] at hg
  have hplain : cell? (plainLines source.toList) line column = some ⟨c, .none⟩ := by
    rw [cell?_plainLines, hline]
    rfl
  obtain ⟨before, after, htext, hc, hplace⟩ := Text.behind_of_lines hline
  have hcovered := (tiles_of_tokenize h).shows_or_isGap htext
  rw [List.nil_append, hplace] at hcovered
  rcases hcovered with ⟨earlier, t, later, rfl, ht, hothers⟩ | ⟨hgap, hnone⟩
  · have htvisible := ht.isVisible h (by simp) hc
    rw [List.filter_append, List.filter_cons_of_pos htvisible, cell?_paintTokens ht hc
      (by rw [← List.filter_append]; exact hvisible hothers) hplain] at hg
    obtain rfl := Option.some.inj hg
    exact .inl ⟨earlier, t, later, rfl, ht, hothers, rfl⟩
  · rw [cell?_paintTokens_of_not_covers (hvisible hnone), hplain] at hg
    obtain rfl := Option.some.inj hg
    exact .inr ⟨hnone, rfl, (Bool.and_eq_true_iff.mp hgap).1⟩

/-- A comment goes on behind a line that ends in a carriage return, which is not displayed, and a
name is called although its line ends before the parenthesis. -/
theorem highlight_tokens_call :
    let source := "/*\r\n*/f \n("
    let tokens : List Token := [⟨.blockComment, "/*\r\n*/", ⟨1, 1⟩⟩, ⟨.identifier, "f", ⟨2, 3⟩⟩,
      ⟨.newline, "\n", ⟨2, 5⟩⟩, ⟨.delimiter .leftParen, "(", ⟨3, 1⟩⟩, .endOfInput ⟨3, 2⟩]
    tokenize source = .ok tokens ∧
      (highlight source tokens).map (fun line => line.map Glyph.char) =
        [['/', '*'], ['*', '/', 'f', ' '], ['(']] ∧
      (highlight source tokens)[1]?.bind (·[2]?) = some ⟨'f', .ink Palette.function⟩ ∧
      ∃ t ∈ tokens, t.Shows ⟨2, 3⟩ 'f' := by
  intro source tokens
  have h : tokenize "/*\r\n*/f \n(" = .ok tokens := rfl
  obtain ⟨hrows, hstyles⟩ := highlight_tokens h
  have hglyph : (highlight source tokens)[1]?.bind (·[2]?) =
      some ⟨'f', .ink Palette.function⟩ := by decide +kernel
  refine ⟨h, hrows.trans (by decide), hglyph, ?_⟩
  rcases hstyles 1 2 _ hglyph with ⟨earlier, t, later, htokens, ht, -⟩ | ⟨-, -, hblank⟩
  · exact ⟨t, htokens ▸ by simp, ht⟩
  · exact absurd hblank (by decide)

end Explorer

end CSurvey
