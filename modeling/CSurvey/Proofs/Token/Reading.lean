import CSurvey.Text.Blank
import CSurvey.Token.Lexer
import CSurvey.Token.Splitting

/-! # The run of the lexer

The run counts its rounds and gathers its tokens back to front. What it comes to can be said
without either: one equation for each way a text goes on, and a relation between a text and its
tokens. -/

namespace CSurvey

namespace Token.Lexeme

variable {kind : Token.Kind} {c : Char} {cs text rest : List Char}

/-- A piece and what follows it are the text it was cut off from. -/
theorem append_of_first (h : first c cs = .piece kind text rest) : text ++ rest = c :: cs := by
  simpa [h, whole] using whole_first c cs

/-- A piece leaves less than there was. -/
theorem length_first (h : first c cs = .piece kind text rest) : rest.length ≤ cs.length := by
  have hlength := congrArg List.length (append_of_first h)
  have hpos := List.length_pos_iff.mpr (first_ne_nil h)
  simp only [List.length_append, List.length_cons] at hlength
  omega

end Token.Lexeme

/-- The tokens of a text that starts at a place. -/
inductive Cursor.Reads : Cursor → List Token → Prop where
  | finished (l : Position) : Reads ⟨[], l⟩ [.endOfInput l]
  | newline {cs : List Char} {l : Position} {ts : List Token}
      (h : Reads ⟨cs, l.next '\n'⟩ ts) : Reads ⟨'\n' :: cs, l⟩ (⟨.newline, "\n", l⟩ :: ts)
  | blank {c : Char} {cs : List Char} {l : Position} {ts : List Token}
      (hc : Token.isGap c = true) (h : Reads ⟨cs, l.next c⟩ ts) : Reads ⟨c :: cs, l⟩ ts
  | piece {c : Char} {cs text rest : List Char} {kind : Token.Kind} {l : Position}
      {ts : List Token} (hc : Text.isBlank c = false)
      (hfirst : Token.Lexeme.first c cs = .piece kind text rest)
      (h : Reads ⟨rest, l.after text⟩ ts) :
      Reads ⟨c :: cs, l⟩ (⟨kind, String.ofList text, l⟩ :: ts)

namespace Cursor

/-! ## The rounds of a run -/

/-- Rounds enough find the same, and what was found earlier stays in front. -/
theorem readAll_append {rounds rounds' : List Char} {c : Cursor}
    (hr : c.rest.length ≤ rounds.length) (hr' : c.rest.length ≤ rounds'.length)
    (done earlier : List Token) :
    (readAll rounds (done ++ earlier) c).1 =
      (earlier.reverse ++ ·) <$> (readAll rounds' done c).1 := by
  obtain ⟨rest, location⟩ := c
  induction rounds generalizing rounds' done rest location with
  | nil =>
      obtain rfl : rest = [] := List.length_eq_zero_iff.mp (Nat.le_zero.mp hr)
      simp [readAll, Functor.map, Except.map]
  | cons x rounds ih =>
      cases rest with
      | nil => simp [readAll, Functor.map, Except.map]
      | cons ch cs =>
          obtain ⟨y, rounds', rfl⟩ :=
            List.exists_cons_of_length_pos (Nat.lt_of_lt_of_le (Nat.succ_pos _) hr')
          have hlen : cs.length ≤ rounds.length := by simpa using hr
          have hlen' : cs.length ≤ rounds'.length := by simpa using hr'
          by_cases hnl : ch = '\n'
          · simp only [readAll, hnl, if_true]
            exact ih (⟨.newline, "\n", location⟩ :: done) cs _ hlen hlen'
          · by_cases hb : Text.isBlank ch = true
            · simp only [readAll, if_neg hnl, if_pos hb]
              exact ih done cs _ hlen hlen'
            · simp only [readAll, if_neg hnl, if_neg hb]
              cases hf : Token.Lexeme.first ch cs with
              | piece kind text rest =>
                  have hshort := Token.Lexeme.length_first hf
                  exact ih (⟨kind, String.ofList text, location⟩ :: done) rest _
                    (Nat.le_trans hshort hlen) (Nat.le_trans hshort hlen')
              | flaw cause text rest => rfl

variable {c : Char} {cs text rest : List Char} {kind : Token.Kind} (l : Position)

theorem tokens_finished : (tokens ⟨[], l⟩).1 = .ok [.endOfInput l] := rfl

theorem tokens_newline : (tokens ⟨'\n' :: cs, l⟩).1 =
    (⟨.newline, "\n", l⟩ :: ·) <$> (tokens ⟨cs, l.next '\n'⟩).1 := by
  have hround : (tokens ⟨'\n' :: cs, l⟩).1 =
      (readAll cs [⟨.newline, "\n", l⟩] ⟨cs, l.next '\n'⟩).1 := by
    simp [tokens, readAll, past]
  rw [hround]
  exact readAll_append (c := ⟨cs, _⟩) (Nat.le_refl cs.length) (Nat.le_refl cs.length) []
    [⟨.newline, "\n", l⟩]

theorem tokens_blank (hc : Token.isGap c = true) :
    (tokens ⟨c :: cs, l⟩).1 = (tokens ⟨cs, l.next c⟩).1 := by
  obtain ⟨hb, hnl⟩ : Text.isBlank c = true ∧ c ≠ '\n' := by simpa [Token.isGap] using hc
  simp [tokens, readAll, past, hb, hnl]

theorem tokens_piece (hc : Text.isBlank c = false)
    (hfirst : Token.Lexeme.first c cs = .piece kind text rest) :
    (tokens ⟨c :: cs, l⟩).1 =
      (⟨kind, String.ofList text, l⟩ :: ·) <$> (tokens ⟨rest, l.after text⟩).1 := by
  have hround : (tokens ⟨c :: cs, l⟩).1 =
      (readAll cs [⟨kind, String.ofList text, l⟩] ⟨rest, l.after text⟩).1 := by
    simp [tokens, readAll, past, Text.ne_newline_of_isBlank hc, hc, hfirst]
  rw [hround]
  exact readAll_append (c := ⟨rest, _⟩) (Token.Lexeme.length_first hfirst)
    (Nat.le_refl rest.length) [] [⟨kind, String.ofList text, l⟩]

theorem tokens_flaw {cause : Token.Flaw} (hc : Text.isBlank c = false)
    (hfirst : Token.Lexeme.first c cs = .flaw cause text rest) :
    (tokens ⟨c :: cs, l⟩).1 = .error ⟨cause, l⟩ := by
  simp [tokens, readAll, Text.ne_newline_of_isBlank hc, hc, hfirst]

/-- A property of texts at places, shown along the run of the lexer. -/
@[elab_as_elim]
theorem induction {P : Cursor → Prop} (finished : ∀ l, P ⟨[], l⟩)
    (newline : ∀ cs l, P ⟨cs, l.next '\n'⟩ → P ⟨'\n' :: cs, l⟩)
    (blank : ∀ c cs l, Token.isGap c = true → P ⟨cs, l.next c⟩ → P ⟨c :: cs, l⟩)
    (piece : ∀ c cs l kind text rest, Text.isBlank c = false →
      Token.Lexeme.first c cs = .piece kind text rest → P ⟨rest, l.after text⟩ → P ⟨c :: cs, l⟩)
    (flaw : ∀ c cs l cause text rest, Text.isBlank c = false →
      Token.Lexeme.first c cs = .flaw cause text rest → P ⟨c :: cs, l⟩) (c : Cursor) : P c := by
  obtain ⟨cs, l⟩ := c
  induction hn : cs.length using Nat.strongRecOn generalizing cs l with
  | _ n ih =>
      cases cs with
      | nil => exact finished l
      | cons c cs =>
          have hlt : cs.length < n := by simp [← hn]
          by_cases hnl : c = '\n'
          · subst hnl
            exact newline cs l (ih _ hlt cs _ rfl)
          · by_cases hb : Text.isBlank c = true
            · exact blank c cs l (by simp [Token.isGap, hb, hnl]) (ih _ hlt cs _ rfl)
            · have hb : Text.isBlank c = false := by simpa using hb
              cases hf : Token.Lexeme.first c cs with
              | piece kind text rest =>
                  have hshort := Token.Lexeme.length_first hf
                  exact piece c cs l kind text rest hb hf
                    (ih _ (Nat.lt_of_le_of_lt hshort hlt) rest _ rfl)
              | flaw cause text rest => exact flaw c cs l cause text rest hb hf

/-! ## What a run comes to -/

theorem Reads.tokens {c : Cursor} {ts : List Token} (h : c.Reads ts) : c.tokens.1 = .ok ts := by
  induction h with
  | finished l => exact tokens_finished l
  | newline _ ih =>
      rw [tokens_newline, ih]
      rfl
  | blank hc _ ih => rw [tokens_blank _ hc, ih]
  | piece hc hfirst _ ih =>
      rw [tokens_piece _ hc hfirst, ih]
      rfl

theorem reads_of_tokens {c : Cursor} {ts : List Token} (h : c.tokens.1 = .ok ts) :
    c.Reads ts := by
  induction c using Cursor.induction generalizing ts with
  | finished l =>
      obtain rfl := Except.ok.inj (tokens_finished l ▸ h)
      exact .finished l
  | newline cs l ih =>
      rw [tokens_newline] at h
      cases hrest : (Cursor.tokens ⟨cs, l.next '\n'⟩).1 with
      | error e => simp [hrest, Functor.map, Except.map] at h
      | ok us =>
          obtain rfl : _ :: us = ts := by simpa [hrest, Functor.map, Except.map] using h
          exact .newline (ih hrest)
  | blank c cs l hc ih =>
      rw [tokens_blank l hc] at h
      exact .blank hc (ih h)
  | piece c cs l kind text rest hc hfirst ih =>
      rw [tokens_piece l hc hfirst] at h
      cases hrest : (Cursor.tokens ⟨rest, l.after text⟩).1 with
      | error e => simp [hrest, Functor.map, Except.map] at h
      | ok us =>
          obtain rfl : _ :: us = ts := by simpa [hrest, Functor.map, Except.map] using h
          exact .piece hc hfirst (ih hrest)
  | flaw c cs l cause text rest hc hfirst =>
      rw [tokens_flaw l hc hfirst] at h
      contradiction

end Cursor

/-- What the lexer makes of a source are the tokens of the source. -/
theorem tokenize_eq_ok_iff {source : String} {tokens : List Token} :
    tokenize source = .ok tokens ↔ (Cursor.ofSource source).Reads tokens :=
  ⟨Cursor.reads_of_tokens, Cursor.Reads.tokens⟩

end CSurvey
