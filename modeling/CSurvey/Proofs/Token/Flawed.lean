import CSurvey.Proofs.Token.Respelled

/-! # Sources cut off at a flaw

A flaw shows at a place, and what stands before it has been read by then. Each lexeme is cut off
from the text up to the flaw as it was from the whole source, since a cut takes nothing away that it
would have taken along; a number sign that stands alone would be a directive only before a word that
the flaw cannot stand in. So the source falls into a part that can be read and one that begins with
the flaw. -/

namespace CSurvey

open Token

/-! ## Texts cut short -/

theorem Token.Kind.Ends.of_append {k : Kind} {before behind : List Char}
    (h : k.Ends (before ++ behind)) : k.Ends before := by
  intro x hx
  obtain ⟨more, rfl⟩ := List.head?_eq_some_iff.mp hx
  exact h x rfl

/-- What stops before a text stops before the front of it too, if no directive stands there. -/
theorem Token.Kind.Stops.of_append {k : Kind} {before behind : List Char}
    (h : k.Stops (before ++ behind))
    (hmarker : k = .directive .unknown → Directive.ofWord? (nextWord before) = none) :
    k.Stops before := by
  refine ⟨h.ends.of_append, fun hk x hx => ?_, fun d hk hd => (h.word d hk hd).of_append, hmarker⟩
  obtain ⟨more, rfl⟩ := List.head?_eq_some_iff.mp hx
  exact h.line hk x rfl

/-! ## The run up to a flaw -/

/-- A flaw stands in front of the text. -/
def Flawed (cause : Flaw) (cs : List Char) : Prop :=
  ∃ x more text rest, cs = x :: more ∧ Text.isBlank x = false ∧
    Lexeme.first x more = .flaw cause text rest

theorem Flawed.tokens {cause : Flaw} {cs : List Char} (h : Flawed cause cs) (l : Position) :
    (Cursor.tokens ⟨cs, l⟩).1 = .error ⟨cause, l⟩ := by
  obtain ⟨x, more, text, rest, rfl, hx, hfirst⟩ := h
  exact Cursor.tokens_flaw l hx hfirst

/-- The text at the cursor is read up to a flaw. No directive word stands at the front of what is
read that does not stand at the front of the whole. -/
structure Cursor.ReadsUpTo (c : Cursor) (e : LexicalError) (before behind : List Char)
    (inner : List Token) : Prop where
  whole : before ++ behind = c.rest
  reads : Reads ⟨before, c.location⟩ (inner ++ [.endOfInput e.location])
  flawed : Flawed e.cause behind
  word : Directive.ofWord? (nextWord c.rest) = none → Directive.ofWord? (nextWord before) = none

namespace Cursor.ReadsUpTo

variable {c : Char} {cs text rest before behind : List Char} {kind : Token.Kind}
  {e : LexicalError} {l : Position} {inner : List Token}

theorem newline (h : ReadsUpTo ⟨cs, l.next '\n'⟩ e before behind inner) :
    ReadsUpTo ⟨'\n' :: cs, l⟩ e ('\n' :: before) behind (⟨.newline, "\n", l⟩ :: inner) :=
  ⟨congrArg _ h.whole, .newline h.reads, h.flawed, fun _ => rfl⟩

theorem blank (hc : isGap c = true) (h : ReadsUpTo ⟨cs, l.next c⟩ e before behind inner) :
    ReadsUpTo ⟨c :: cs, l⟩ e (c :: before) behind inner := by
  have hnext : ∀ cs, nextWord (c :: cs) = nextWord cs := by
    intro cs
    rw [nextWord, List.dropWhile_cons_of_pos hc, nextWord]
  refine ⟨congrArg _ h.whole, .blank hc h.reads, h.flawed, fun hnone => ?_⟩
  rw [hnext]
  exact h.word (hnext cs ▸ hnone)

theorem piece (hc : Text.isBlank c = false)
    (hfirst : Lexeme.first c cs = .piece kind (c :: text) rest)
    (h : ReadsUpTo ⟨rest, l.after (c :: text)⟩ e before behind inner) :
    ReadsUpTo ⟨c :: cs, l⟩ e (c :: text ++ before) behind
      (⟨kind, String.ofList (c :: text), l⟩ :: inner) := by
  have hstops := Lexeme.stops_first hfirst
  have hcut : kind.Stops before := by
    have hrest : before ++ behind = rest := h.whole
    refine (hrest ▸ hstops).of_append fun hk => h.word (hstops.marker hk)
  have hfirst' := Lexeme.first_again hfirst hcut
  refine ⟨?_, .piece hc hfirst' h.reads, h.flawed, ?_⟩
  · rw [List.append_assoc, h.whole]
    exact Lexeme.append_of_first hfirst
  · exact Lexeme.nextWord_again hc hfirst hcut.ends

end Cursor.ReadsUpTo

theorem eq_error_of_map {ε α β : Type} {f : α → β} {x : Except ε α} {e : ε}
    (h : f <$> x = .error e) : x = .error e := by
  cases x with
  | ok a => contradiction
  | error e' => rw [Except.error.inj h]

/-- A run that fails has read all that stands before the flaw. -/
theorem Cursor.exists_readsUpTo {c : Cursor} {e : LexicalError} (h : c.tokens.1 = .error e) :
    ∃ before behind inner, c.ReadsUpTo e before behind inner := by
  induction c using Cursor.induction with
  | finished l =>
      rw [tokens_finished] at h
      contradiction
  | newline cs l ih =>
      rw [tokens_newline] at h
      obtain ⟨before, behind, inner, hrest⟩ := ih (eq_error_of_map h)
      exact ⟨_, _, _, hrest.newline⟩
  | blank c cs l hc ih =>
      rw [tokens_blank l hc] at h
      obtain ⟨before, behind, inner, hrest⟩ := ih h
      exact ⟨_, _, _, hrest.blank hc⟩
  | piece c cs l kind text rest hc hfirst ih =>
      obtain ⟨text, rfl⟩ := Lexeme.eq_cons_of_first hfirst
      rw [tokens_piece l hc hfirst] at h
      obtain ⟨before, behind, inner, hrest⟩ := ih (eq_error_of_map h)
      exact ⟨_, _, _, hrest.piece hc hfirst⟩
  | flaw c cs l cause text rest hc hfirst =>
      rw [tokens_flaw l hc hfirst] at h
      obtain rfl := Except.error.inj h
      exact ⟨[], c :: cs, [], rfl, .finished l, ⟨c, cs, text, rest, rfl, hc, hfirst⟩, fun _ => rfl⟩

/-- A flaw is reported where it stands. A source that has one falls into two: the first part can be
read, and its end of input stands where the flaw was reported; the second has the same flaw at its
very start. -/
theorem tokenize_flawed {source : String} {e : LexicalError} (h : tokenize source = .error e) :
    ∃ before behind, source = before ++ behind ∧
      (∃ inner, tokenize before = .ok (inner ++ [.endOfInput e.location])) ∧
      tokenize behind = .error ⟨e.cause, .start⟩ := by
  obtain ⟨before, behind, inner, hwhole, hreads, hflawed, -⟩ := Cursor.exists_readsUpTo h
  refine ⟨String.ofList before, String.ofList behind, ?_, ⟨inner, ?_⟩, ?_⟩
  · rw [← String.ofList_append, hwhole]
    exact String.ofList_toList.symm
  · rw [tokenize_eq_ok_iff, Cursor.ofSource, String.toList_ofList]
    exact hreads
  · rw [tokenize, Cursor.ofSource, String.toList_ofList]
    exact hflawed.tokens .start

/-- With a numeral behind it a directive word is another word, and alone the numeral is no token. -/
theorem tokenize_flawed_numeral :
    tokenize "int\n# if²\n+ ²" = .error ⟨.strayCharacter '²', ⟨3, 3⟩⟩ ∧
      ∃ before behind, "int\n# if²\n+ ²" = before ++ behind ∧
        (∃ inner, tokenize before = .ok (inner ++ [.endOfInput ⟨3, 3⟩])) ∧
        tokenize behind = .error ⟨.strayCharacter '²', .start⟩ := by
  have h : tokenize "int\n# if²\n+ ²" = .error ⟨.strayCharacter '²', ⟨3, 3⟩⟩ := by decide +kernel
  exact ⟨h, tokenize_flawed h⟩

end CSurvey
