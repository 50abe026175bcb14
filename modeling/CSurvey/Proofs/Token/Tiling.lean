import Mathlib.Data.List.TakeWhile
import CSurvey.Proofs.Token.Reading
import CSurvey.Text.Lines

/-! # Tokens tile the source

White space and token texts alternate and together make up the source, and the place of a token is
counted off the characters before it. -/

namespace CSurvey

/-! ## Places -/

/-- The place behind some characters, counted off all of them at once. -/
def Position.behind (passed : List Char) : Position :=
  ⟨1 + passed.count '\n', 1 + (passed.reverse.takeWhile (· ≠ '\n')).length⟩

theorem Position.behind_nil : Position.behind [] = .start := rfl

theorem Position.next_behind (passed : List Char) (c : Char) :
    (Position.behind passed).next c = .behind (passed ++ [c]) := by
  by_cases h : c = '\n'
  · subst h
    simp [Position.next, Position.behind, Nat.add_assoc]
  · simp [Position.next, Position.behind, h, Nat.add_comm]

/-- Stepping character by character comes to the same place. -/
theorem Position.after_behind (passed cs : List Char) :
    (Position.behind passed).after cs = .behind (passed ++ cs) := by
  induction cs generalizing passed with
  | nil => simp
  | cons c cs ih =>
      rw [Position.after_cons, Position.next_behind, ih]
      simp

/-! ## Newlines in lexemes -/

namespace Token.Lexeme

theorem newline_notMem_takeWhile {p : Char → Bool} (hp : p '\n' = false) (cs : List Char) :
    '\n' ∉ cs.takeWhile p := by
  intro hm
  have h := List.mem_takeWhile_imp hm
  rw [hp] at h
  contradiction

theorem newline_notMem_closeQuote (quote : Char) (cs : List Char) :
    '\n' ∉ (closeQuote quote cs).2.1 := by
  fun_induction closeQuote quote cs with
  | case5 d tail hd closed text left hx hb ih =>
      rw [hx] at ih
      simp_all [eq_comm]
  | case7 c rest hc _ _ closed text left hx ih =>
      rw [hx] at ih
      simp_all [eq_comm]
  | _ => simp_all [eq_comm]

theorem newline_notMem_quoted {quote : Char} {kind kind' : Kind} {flaw : Flaw}
    {cs text rest : List Char} (hq : quote ≠ '\n')
    (h : quoted quote kind flaw cs = .piece kind' text rest) : '\n' ∉ text := by
  have hn := newline_notMem_closeQuote quote cs
  unfold quoted at h
  split at h
  · obtain ⟨-, rfl, -⟩ := Lexeme.piece.inj h
    simp_all [eq_comm]
  · simp at h

theorem newline_notMem_word {kind : Kind} {cs text rest : List Char}
    (h : word cs = .piece kind text rest) : '\n' ∉ text := by
  have hn := newline_notMem_takeWhile (p := continuesWord) (by decide) cs
  unfold word at h
  dsimp only at h
  split at h
  · obtain ⟨-, rfl, -⟩ := Lexeme.piece.inj h
    exact hn
  · obtain ⟨-, rfl, -⟩ := Lexeme.piece.inj h
    exact hn

theorem newline_notMem_directive {kind : Kind} {cs text rest : List Char}
    (h : directive cs = .piece kind text rest) : '\n' ∉ text := by
  have hgap := newline_notMem_takeWhile (p := isGap) (by decide) cs
  have hname := newline_notMem_takeWhile (p := continuesWord) (by decide) (cs.dropWhile isGap)
  unfold directive at h
  dsimp only at h
  split at h
  · obtain ⟨-, rfl, -⟩ := Lexeme.piece.inj h
    simp [hgap, hname]
  · obtain ⟨-, rfl, -⟩ := Lexeme.piece.inj h
    decide

theorem newline_notMem_sign {kind : Kind} {c : Char} {cs text rest : List Char} (hc : c ≠ '\n')
    (h : sign c cs = .piece kind text rest) : '\n' ∉ text := by
  unfold sign at h
  split at h
  · rename_i o _
    obtain ⟨-, rfl, -⟩ := Lexeme.piece.inj h
    cases o <;> decide
  · split at h
    · obtain ⟨-, rfl, -⟩ := Lexeme.piece.inj h
      simpa [eq_comm] using hc
    · simp at h

/-- Only a block comment runs over the end of a line. -/
theorem newline_notMem_first {kind : Kind} {c : Char} {cs text rest : List Char} (hc : c ≠ '\n')
    (h : first c cs = .piece kind text rest) (hk : kind ≠ .blockComment) : '\n' ∉ text := by
  unfold first at h
  split at h
  · obtain ⟨-, rfl, -⟩ := Lexeme.piece.inj h
    have hn := newline_notMem_takeWhile (p := fun c => !decide (c = '\n')) (by decide)
    simp [hn]
  · unfold blockComment at h
    split at h
    · exact absurd (Lexeme.piece.inj h).1.symm hk
    · simp at h
  · exact newline_notMem_quoted (by decide) h
  · exact newline_notMem_quoted (by decide) h
  · exact newline_notMem_directive h
  · split at h
    · rename_i hd
      obtain ⟨-, rfl, -⟩ := Lexeme.piece.inj h
      have hn := newline_notMem_takeWhile (p := continuesNumber) (by decide)
      simpa [hn, eq_comm] using hc
    · split at h
      · exact newline_notMem_word h
      · exact newline_notMem_sign hc h

/-- What is cut off is neither a newline nor the end. -/
theorem first_kind {kind : Kind} {c : Char} {cs text rest : List Char}
    (h : first c cs = .piece kind text rest) : kind ≠ .newline ∧ kind ≠ .endOfInput := by
  unfold first quoted blockComment directive word sign at h
  dsimp only at h
  repeat' split at h
  all_goals first
    | (obtain ⟨rfl, -, -⟩ := Lexeme.piece.inj h; simp)
    | simp at h

end Token.Lexeme

/-! ## What the lexer finds -/

/-- What holds of every token but the last: it is not the end, it has a text, and a newline stands
in it only if it is a newline or a block comment. -/
structure Token.IsInner (t : Token) : Prop where
  kind_ne : t.kind ≠ .endOfInput
  text_ne : t.text.toList ≠ []
  newline : '\n' ∈ t.text.toList → t.kind = .blockComment ∨ t.kind = .newline ∧ t.text = "\n"

/-- The tokens of the text `rest` that follows the text `passed`: white space is passed over, a
token stands where its text does, and the end of input where nothing is left. -/
inductive Tiles : List Char → List Char → List Token → Prop where
  | finished (passed) : Tiles passed [] [.endOfInput (.behind passed)]
  | blank {passed c rest tokens} (hc : Token.isGap c = true) :
      Tiles (passed ++ [c]) rest tokens → Tiles passed (c :: rest) tokens
  | token {passed t rest tokens} (ht : t.IsInner) (hl : t.location = .behind passed) :
      Tiles (passed ++ t.text.toList) rest tokens →
      Tiles passed (t.text.toList ++ rest) (t :: tokens)

theorem Token.isInner_newline (location : Position) :
    Token.IsInner ⟨.newline, "\n", location⟩ :=
  ⟨by simp, by simp, fun _ => .inr ⟨rfl, rfl⟩⟩

theorem Token.isInner_of_first {kind : Token.Kind} {c : Char} {cs text rest : List Char}
    (location : Position) (hc : c ≠ '\n')
    (h : Token.Lexeme.first c cs = .piece kind text rest) :
    Token.IsInner ⟨kind, String.ofList text, location⟩ := by
  refine ⟨(Token.Lexeme.first_kind h).2, by simpa using Token.Lexeme.first_ne_nil h, ?_⟩
  intro hm
  by_cases hk : kind = .blockComment
  · exact .inl hk
  · rw [String.toList_ofList] at hm
    exact absurd hm (Token.Lexeme.newline_notMem_first hc h hk)

theorem Cursor.Reads.tiles {c : Cursor} {tokens : List Token} {passed : List Char}
    (h : c.Reads tokens) (hl : c.location = .behind passed) : Tiles passed c.rest tokens := by
  induction h generalizing passed with
  | finished l =>
      subst hl
      exact .finished passed
  | @newline cs l ts _ ih =>
      subst hl
      rw [Position.next_behind] at ih
      have hi := Token.isInner_newline (.behind passed)
      simpa using Tiles.token hi rfl (by simpa using ih rfl)
  | @blank c cs l ts hc _ ih =>
      subst hl
      rw [Position.next_behind] at ih
      exact .blank hc (ih rfl)
  | @piece c cs text rest kind l ts hc hfirst _ ih =>
      subst hl
      have hnl := Text.ne_newline_of_isBlank hc
      rw [Position.after_behind] at ih
      have hi := Token.isInner_of_first (.behind passed) hnl hfirst
      rw [← Token.Lexeme.append_of_first hfirst]
      simpa using Tiles.token hi rfl (by simpa using ih rfl)

theorem tiles_of_tokenize {source : String} {tokens : List Token}
    (h : tokenize source = .ok tokens) : Tiles [] source.toList tokens :=
  (tokenize_eq_ok_iff.mp h).tiles rfl

/-- The end of input closes the tokens and stands nowhere else. -/
theorem Tiles.ending {passed rest : List Char} {tokens : List Token}
    (h : Tiles passed rest tokens) :
    ∃ inner, tokens = inner ++ [.endOfInput (.behind (passed ++ rest))] ∧
      ∀ t ∈ inner, t.IsInner := by
  induction h with
  | finished passed =>
      exact ⟨[], by simp, by simp⟩
  | blank _ _ ih =>
      obtain ⟨inner, rfl, hinner⟩ := ih
      exact ⟨inner, by simp, hinner⟩
  | @token passed t rest tokens ht _ _ ih =>
      obtain ⟨inner, rfl, hinner⟩ := ih
      exact ⟨t :: inner, by simp, by simpa [ht] using hinner⟩

/-! ## Tilings -/

/-- White space and tokens, one after the other, as they are written. -/
def written (pieces : List (List Char × Token)) : List Char :=
  pieces.flatMap fun p => p.1 ++ p.2.text.toList

/-- A text that follows `passed`, cut into tokens, each with the white space before it. Each token
has the place that the characters before it come to. The last token is the end of input, and no
other is. -/
structure IsTiling (passed rest : List Char) (pieces : List (List Char × Token)) : Prop where
  written_eq : written pieces = rest
  gap : ∀ p ∈ pieces, ∀ c ∈ p.1, Text.isBlank c = true ∧ c ≠ '\n'
  location : ∀ before p after, pieces = before ++ p :: after →
    p.2.location = .behind (passed ++ written before ++ p.1)
  ending : ∃ inner gap, pieces = inner ++ [(gap, .endOfInput (.behind (passed ++ rest)))] ∧
    ∀ p ∈ inner, p.2.IsInner

theorem IsTiling.finished (passed : List Char) :
    IsTiling passed [] [([], .endOfInput (.behind passed))] := by
  refine ⟨rfl, by simp, ?_, ⟨[], [], by simp, by simp⟩⟩
  intro before p after h
  have hb : before = [] := by
    cases before with
    | nil => rfl
    | cons b before => simp at h
  subst hb
  simp only [List.nil_append, List.cons.injEq] at h
  rw [← h.1]
  simp [written, Token.endOfInput]

theorem IsTiling.blank {passed rest gap : List Char} {c : Char} {t : Token}
    {pieces : List (List Char × Token)} (hc : Token.isGap c = true)
    (h : IsTiling (passed ++ [c]) rest ((gap, t) :: pieces)) :
    IsTiling passed (c :: rest) ((c :: gap, t) :: pieces) := by
  have hc' : Text.isBlank c = true ∧ c ≠ '\n' := by simpa [Token.isGap] using hc
  obtain ⟨inner, gap', hi, hinner⟩ := h.ending
  refine ⟨?_, ?_, ?_, ?_⟩
  · have hw := h.written_eq
    rw [← hw]
    simp [written]
  · intro p hp d hd
    rcases List.mem_cons.mp hp with rfl | hp
    · rcases List.mem_cons.mp hd with rfl | hd
      · exact hc'
      · exact h.gap _ (List.mem_cons_self) d hd
    · exact h.gap p (List.mem_cons_of_mem _ hp) d hd
  · intro before p after hs
    cases before with
    | nil =>
        obtain ⟨rfl, rfl⟩ := List.cons.inj hs
        simpa [written] using h.location [] (gap, t) pieces rfl
    | cons b before =>
        obtain ⟨rfl, rfl⟩ := List.cons.inj hs
        simpa [written] using h.location ((gap, t) :: before) p after rfl
  · cases inner with
    | nil =>
        obtain ⟨he, rfl⟩ := List.cons.inj hi
        obtain ⟨rfl, rfl⟩ := Prod.mk.inj he
        exact ⟨[], c :: gap, by simp, by simp⟩
    | cons b inner =>
        obtain ⟨rfl, rfl⟩ := List.cons.inj hi
        refine ⟨(c :: gap, t) :: inner, gap', by simp, ?_⟩
        intro p hp
        rcases List.mem_cons.mp hp with rfl | hp
        · exact hinner (gap, t) (List.mem_cons_self)
        · exact hinner p (List.mem_cons_of_mem _ hp)

theorem IsTiling.token {passed rest : List Char} {t : Token}
    {pieces : List (List Char × Token)} (ht : t.IsInner) (hl : t.location = .behind passed)
    (h : IsTiling (passed ++ t.text.toList) rest pieces) :
    IsTiling passed (t.text.toList ++ rest) (([], t) :: pieces) := by
  obtain ⟨inner, gap, hi, hinner⟩ := h.ending
  refine ⟨?_, ?_, ?_, ?_⟩
  · have hw := h.written_eq
    rw [← hw]
    simp [written]
  · intro p hp c hc
    rcases List.mem_cons.mp hp with rfl | hp
    · simp at hc
    · exact h.gap p hp c hc
  · intro before p after hs
    cases before with
    | nil =>
        obtain ⟨rfl, rfl⟩ := List.cons.inj hs
        simpa [written] using hl
    | cons b before =>
        obtain ⟨rfl, hp⟩ := List.cons.inj hs
        simpa [written] using h.location before p after hp
  · refine ⟨([], t) :: inner, gap, by simp [hi], ?_⟩
    intro p hp
    rcases List.mem_cons.mp hp with rfl | hp
    · exact ht
    · exact hinner p hp

theorem Tiles.isTiling {passed rest : List Char} {tokens : List Token}
    (h : Tiles passed rest tokens) :
    ∃ pieces, pieces.map Prod.snd = tokens ∧ IsTiling passed rest pieces := by
  induction h with
  | finished passed => exact ⟨_, rfl, .finished passed⟩
  | blank hc _ ih =>
      obtain ⟨pieces, rfl, hp⟩ := ih
      cases pieces with
      | nil =>
          obtain ⟨_, _, hn, _⟩ := hp.ending
          simp at hn
      | cons p pieces => exact ⟨(_ :: p.1, p.2) :: pieces, rfl, .blank hc hp⟩
  | token ht hl _ ih =>
      obtain ⟨pieces, rfl, hp⟩ := ih
      exact ⟨_, rfl, .token ht hl hp⟩

/-- A source that can be cut into tokens is cut without loss: white space within lines, token texts
and nothing else. The places of the tokens are those of their texts, so the end of input stands on
the last line. Only block comments run over several lines. -/
theorem tokenize_isTiling {source : String} {tokens : List Token}
    (h : tokenize source = .ok tokens) :
    (∃ pieces, pieces.map Prod.snd = tokens ∧ IsTiling [] source.toList pieces) ∧
      (∃ inner last, tokens = inner ++ [last] ∧ last.kind = .endOfInput ∧ last.text = "" ∧
        last.location.line = Text.lineCount source.toList ∧
        ∀ t ∈ inner, t.kind ≠ .endOfInput) ∧
      ∀ t ∈ tokens, '\n' ∈ t.text.toList →
        t.kind = .blockComment ∨ t.kind = .newline ∧ t.text = "\n" := by
  obtain ⟨pieces, rfl, hp⟩ := (tiles_of_tokenize h).isTiling
  obtain ⟨inner, gap, rfl, hinner⟩ := hp.ending
  refine ⟨⟨_, rfl, hp⟩, ⟨inner.map Prod.snd, .endOfInput (.behind source.toList), ?_⟩, ?_⟩
  · refine ⟨by simp, rfl, rfl, ?_, ?_⟩
    · simp [Token.endOfInput, Position.behind, Text.lineCount, Nat.add_comm]
    · intro t ht
      obtain ⟨p, hm, rfl⟩ := List.mem_map.mp ht
      exact (hinner p hm).kind_ne
  · intro t ht hn
    rw [List.map_append, List.mem_append, List.mem_map] at ht
    rcases ht with ⟨p, hm, rfl⟩ | ht
    · exact (hinner p hm).newline hn
    · obtain rfl : t = .endOfInput (.behind ([] ++ source.toList)) := by simpa using ht
      simp [Token.endOfInput] at hn

/-- A comment over two lines, a number sign whose word is read anew, and a last empty line. -/
theorem tokenize_isTiling_lines :
    tokenize "/*\n*/ # x\n" = .ok
        [⟨.blockComment, "/*\n*/", ⟨1, 1⟩⟩, ⟨.directive .unknown, "#", ⟨2, 4⟩⟩,
          ⟨.identifier, "x", ⟨2, 6⟩⟩, ⟨.newline, "\n", ⟨2, 7⟩⟩, .endOfInput ⟨3, 1⟩] ∧
      ∃ pieces, pieces.map Prod.snd =
        [⟨.blockComment, "/*\n*/", ⟨1, 1⟩⟩, ⟨.directive .unknown, "#", ⟨2, 4⟩⟩,
          ⟨.identifier, "x", ⟨2, 6⟩⟩, ⟨.newline, "\n", ⟨2, 7⟩⟩, .endOfInput ⟨3, 1⟩] ∧
        IsTiling [] "/*\n*/ # x\n".toList pieces :=
  ⟨rfl, (tokenize_isTiling rfl).1⟩

end CSurvey
