import CSurvey.Proofs.Syntax.Moved
import CSurvey.Proofs.Token.Tiling

/-! # Tokens of sources put together

No token but a block comment runs over a newline, and a block comment has an end of its own. So a
source that is followed by a newline keeps its tokens, and those of the source behind it are the
same on lower lines. -/

namespace CSurvey

open Moves (move)

namespace Token

theorem takeWhile_newline {p : Char → Bool} (hp : p '\n' = false) (cs more : List Char) :
    (cs ++ '\n' :: more).takeWhile p = cs.takeWhile p := by
  induction cs with
  | nil => simp [hp]
  | cons c cs ih =>
      by_cases hc : p c = true
      · simp [hc, ih]
      · simp [hc]

theorem dropWhile_newline {p : Char → Bool} (hp : p '\n' = false) (cs more : List Char) :
    (cs ++ '\n' :: more).dropWhile p = cs.dropWhile p ++ '\n' :: more := by
  induction cs with
  | nil => simp [hp]
  | cons c cs ih =>
      by_cases hc : p c = true
      · simp [hc, ih]
      · simp [hc]

theorem Operator.ofSpelling?_newline {text : List Char} (h : '\n' ∈ text) :
    Operator.ofSpelling? text = none := by
  cases ho : Operator.ofSpelling? text with
  | none => rfl
  | some o =>
      have hspelling := Operator.spelling_of_ofSpelling? ho
      rw [← hspelling] at h
      revert h
      cases o <;> decide

namespace Lexeme

variable {more : List Char}

/-- A newline ends an operator. -/
theorem operator?_newline (c : Char) (cs : List Char) :
    operator? (c :: (cs ++ '\n' :: more)) = operator? (c :: cs) := by
  have hnone : ∀ before after : List Char,
      Operator.ofSpelling? (before ++ '\n' :: after) = none := fun before after =>
    Operator.ofSpelling?_newline (by simp)
  rcases cs with - | ⟨d, - | ⟨e, cs⟩⟩
  · have h3 : Operator.ofSpelling? ((c :: '\n' :: more).take 3) = none := hnone [c] (more.take 1)
    have h2 : Operator.ofSpelling? ((c :: '\n' :: more).take 2) = none := hnone [c] []
    simp only [operator?, List.findSome?_cons, List.findSome?_nil, List.nil_append, h3, h2]
    cases hone : Operator.ofSpelling? [c] with
    | none => simp [hone]
    | some o => simp [hone]
  · have h3 : Operator.ofSpelling? ((c :: d :: '\n' :: more).take 3) = none := hnone [c, d] []
    simp only [operator?, List.findSome?_cons, List.findSome?_nil, List.cons_append,
      List.nil_append, h3]
    cases htwo : Operator.ofSpelling? [c, d] with
    | none => simp [htwo]
    | some o => simp [htwo]
  · rfl

/-! ## Lexemes before a newline -/

variable {kind kind' : Kind} {c : Char} {cs text rest : List Char}

theorem closeComment_newline (h : closeComment cs = some (text, rest)) :
    closeComment (cs ++ '\n' :: more) = some (text, rest ++ '\n' :: more) := by
  fun_induction closeComment cs generalizing text rest with
  | case1 tail =>
      obtain ⟨rfl, rfl⟩ := Prod.mk.inj (Option.some.inj h)
      rfl
  | case2 c tail hno ih =>
      obtain ⟨⟨text', rest'⟩, found, made⟩ := Option.map_eq_some_iff.mp h
      obtain ⟨rfl, rfl⟩ := Prod.mk.inj made
      rw [List.cons_append, closeComment, ih found]
      · rfl
      · intro tail' hc htail
        cases tail with
        | nil => simp at htail
        | cons d tail => exact hno tail hc (by rw [(List.cons.inj htail).1])
  | case3 => simp at h

theorem closeQuote_newline {quote : Char} (h : closeQuote quote cs = (true, text, rest)) :
    closeQuote quote (cs ++ '\n' :: more) = (true, text, rest ++ '\n' :: more) := by
  fun_induction closeQuote quote cs generalizing text rest with
  | case5 d tail hd closed text' left hx hb ih =>
      obtain ⟨rfl, rfl, rfl⟩ : closed = true ∧ '\\' :: d :: text' = text ∧ left = rest := by
        simpa using h
      rw [List.cons_append, List.cons_append, closeQuote, if_neg (by decide), if_pos rfl]
      simp only [if_neg hd, ih hx]
  | case6 tail hnl hb =>
      obtain ⟨rfl, rfl⟩ : [quote] = text ∧ tail = rest := by simpa using h
      rw [List.cons_append, closeQuote.eq_def]
      dsimp only
      rw [if_neg hnl, if_neg hb, if_pos rfl]
  | case7 c tail hnl hb hq closed text' left hx ih =>
      obtain ⟨rfl, rfl, rfl⟩ : closed = true ∧ c :: text' = text ∧ left = rest := by simpa using h
      rw [List.cons_append, closeQuote.eq_def]
      dsimp only
      rw [if_neg hnl, if_neg hb, if_neg hq, ih hx]
  | _ => simp at h

theorem quoted_newline {quote : Char} {flaw : Flaw}
    (h : quoted quote kind flaw cs = .piece kind' text rest) :
    quoted quote kind flaw (cs ++ '\n' :: more) = .piece kind' text (rest ++ '\n' :: more) := by
  unfold quoted at h
  split at h
  · rename_i inner left hclose
    obtain ⟨rfl, rfl, rfl⟩ := Lexeme.piece.inj h
    rw [quoted, closeQuote_newline hclose]
  · simp at h

theorem blockComment_newline (h : blockComment cs = .piece kind text rest) :
    blockComment (cs ++ '\n' :: more) = .piece kind text (rest ++ '\n' :: more) := by
  unfold blockComment at h
  split at h
  · rename_i inner left hclose
    obtain ⟨rfl, rfl, rfl⟩ := Lexeme.piece.inj h
    rw [blockComment, closeComment_newline hclose]
  · simp at h

theorem word_newline (h : word cs = .piece kind text rest) :
    word (cs ++ '\n' :: more) = .piece kind text (rest ++ '\n' :: more) := by
  have htake := takeWhile_newline (p := continuesWord) (by decide) cs more
  have hdrop := dropWhile_newline (p := continuesWord) (by decide) cs more
  unfold word at h ⊢
  rw [htake, hdrop]
  dsimp only at h ⊢
  split at h
  · obtain ⟨rfl, rfl, rfl⟩ := Lexeme.piece.inj h
    simp_all
  · obtain ⟨rfl, rfl, rfl⟩ := Lexeme.piece.inj h
    simp_all

theorem directive_newline (h : directive cs = .piece kind text rest) :
    directive (cs ++ '\n' :: more) = .piece kind text (rest ++ '\n' :: more) := by
  have hgap := takeWhile_newline (p := isGap) (by decide) cs more
  have hbehind := dropWhile_newline (p := isGap) (by decide) cs more
  have htake := takeWhile_newline (p := continuesWord) (by decide)
    (cs.dropWhile isGap) more
  have hdrop := dropWhile_newline (p := continuesWord) (by decide)
    (cs.dropWhile isGap) more
  unfold directive at h ⊢
  rw [hgap, hbehind, htake, hdrop]
  dsimp only at h ⊢
  split at h
  · obtain ⟨rfl, rfl, rfl⟩ := Lexeme.piece.inj h
    simp_all
  · obtain ⟨rfl, rfl, rfl⟩ := Lexeme.piece.inj h
    simp_all

theorem sign_newline (h : sign c cs = .piece kind text rest) :
    sign c (cs ++ '\n' :: more) = .piece kind text (rest ++ '\n' :: more) := by
  unfold sign at h ⊢
  rw [operator?_newline]
  split at h
  · rename_i o hfound
    obtain ⟨rfl, rfl, rfl⟩ := Lexeme.piece.inj h
    obtain ⟨n, -, hspelt⟩ := List.exists_of_findSome?_eq_some hfound
    have hspelling := Operator.spelling_of_ofSpelling? hspelt
    have hle : o.spelling.toList.length ≤ (c :: cs).length := by
      rw [hspelling]
      exact List.length_take_le' ..
    dsimp only
    rw [← List.cons_append, List.drop_append_of_le_length hle]
  · split at h
    · obtain ⟨rfl, rfl, rfl⟩ := Lexeme.piece.inj h
      rfl
    · simp at h

/-- What is cut off does not change when a newline follows the text. -/
theorem first_newline (h : first c cs = .piece kind text rest) :
    first c (cs ++ '\n' :: more) = .piece kind text (rest ++ '\n' :: more) := by
  unfold first at h
  split at h
  · rename_i tail
    obtain ⟨rfl, rfl, rfl⟩ := Lexeme.piece.inj h
    have htake := takeWhile_newline (p := (· ≠ '\n')) (by decide) tail more
    have hdrop := dropWhile_newline (p := (· ≠ '\n')) (by decide) tail more
    show Lexeme.piece .lineComment ('/' :: '/' :: (tail ++ '\n' :: more).takeWhile _)
      ((tail ++ '\n' :: more).dropWhile _) = _
    rw [htake, hdrop]
  · exact blockComment_newline h
  · exact quoted_newline h
  · exact quoted_newline h
  · exact directive_newline h
  · rename_i hstring hcharacter hmarker hline hblock
    have hplain : first c (cs ++ '\n' :: more) =
        if c.isDigit then
          .piece .number (c :: (cs ++ '\n' :: more).takeWhile continuesNumber)
            ((cs ++ '\n' :: more).dropWhile continuesNumber)
        else if startsWord c then word (c :: (cs ++ '\n' :: more))
        else sign c (cs ++ '\n' :: more) := by
      unfold first
      split
      · rename_i heq
        cases cs with
        | nil => simp at heq
        | cons d tail => exact (hline tail rfl (by rw [(List.cons.inj heq).1])).elim
      · rename_i heq
        cases cs with
        | nil => simp at heq
        | cons d tail => exact (hblock tail rfl (by rw [(List.cons.inj heq).1])).elim
      · exact (hstring rfl).elim
      · exact (hcharacter rfl).elim
      · exact (hmarker rfl).elim
      · rfl
    rw [hplain]
    by_cases hdigit : c.isDigit = true
    · rw [if_pos hdigit] at h ⊢
      obtain ⟨rfl, rfl, rfl⟩ := Lexeme.piece.inj h
      rw [takeWhile_newline (by decide), dropWhile_newline (by decide)]
    · rw [if_neg hdigit] at h ⊢
      by_cases hword : startsWord c = true
      · rw [if_pos hword] at h ⊢
        exact word_newline h
      · rw [if_neg hword] at h ⊢
        exact sign_newline h

end Lexeme

end Token

/-! ## Lower lines -/

/-- The place so many lines further down. -/
def Position.lowered (lines : Nat) (p : Position) : Position :=
  ⟨p.line + lines, p.column⟩

theorem Position.next_lowered (lines : Nat) (p : Position) (c : Char) :
    (p.lowered lines).next c = (p.next c).lowered lines := by
  by_cases h : c = '\n'
  · simp [next, lowered, h, Nat.add_right_comm]
  · simp [next, lowered, h]

theorem Position.after_lowered (lines : Nat) (p : Position) (cs : List Char) :
    (p.lowered lines).after cs = (p.after cs).lowered lines := by
  induction cs generalizing p with
  | nil => rfl
  | cons c cs ih => rw [after_cons, next_lowered, ih, after_cons]

instance : Moves LexicalError := ⟨fun f e => ⟨e.cause, f e.location⟩⟩

instance {ε α : Type} [Moves ε] [Moves α] : Moves (Except ε α) where
  move f
    | .ok a => .ok (move f a)
    | .error e => .error (move f e)

namespace Cursor

/-- A text further down comes to the same further down. -/
theorem tokens_lowered (lines : Nat) (c : Cursor) :
    (tokens ⟨c.rest, c.location.lowered lines⟩).1 =
      move (Position.lowered lines) c.tokens.1 := by
  have hmap : ∀ (t : Token) (found : Except LexicalError (List Token)),
      (move (Position.lowered lines) t :: ·) <$> move (Position.lowered lines) found =
        move (Position.lowered lines) ((t :: ·) <$> found) := by
    intro t found
    cases found <;> rfl
  induction c using Cursor.induction with
  | finished l => rfl
  | newline cs l ih =>
      rw [tokens_newline, tokens_newline, Position.next_lowered, ih, ← hmap]
      rfl
  | blank c cs l hc ih => rw [tokens_blank _ hc, tokens_blank _ hc, Position.next_lowered, ih]
  | piece c cs l kind text rest hc hfirst ih =>
      rw [tokens_piece _ hc hfirst, tokens_piece _ hc hfirst, Position.after_lowered, ih, ← hmap]
      rfl
  | flaw c cs l cause text rest hc hfirst =>
      rw [tokens_flaw _ hc hfirst, tokens_flaw _ hc hfirst]
      rfl

/-! ## Texts put together -/

/-- A text keeps its tokens when a newline follows, and what comes after them is what the text
behind the newline comes to. -/
theorem Reads.tokens_newline {c : Cursor} {ts : List Token} (h : c.Reads ts) :
    ∃ inner, ts = inner ++ [.endOfInput (c.location.after c.rest)] ∧
      (∀ t ∈ inner, t.kind ≠ .endOfInput) ∧
      ∀ more, (Cursor.tokens ⟨c.rest ++ '\n' :: more, c.location⟩).1 =
        (inner ++ ⟨.newline, "\n", c.location.after c.rest⟩ :: ·) <$>
          (Cursor.tokens ⟨more, (c.location.after c.rest).next '\n'⟩).1 := by
  induction h with
  | finished l => exact ⟨[], rfl, by simp, fun more => Cursor.tokens_newline l⟩
  | @newline cs l ts _ ih =>
      obtain ⟨inner, rfl, hinner, hwhole⟩ := ih
      refine ⟨⟨.newline, "\n", l⟩ :: inner, rfl, ?_, fun more => ?_⟩
      · exact List.forall_mem_cons.mpr ⟨by simp, hinner⟩
      · rw [List.cons_append, Cursor.tokens_newline, hwhole, Functor.map_map]
        rfl
  | blank hc _ ih =>
      obtain ⟨inner, rfl, hinner, hwhole⟩ := ih
      refine ⟨inner, rfl, hinner, fun more => ?_⟩
      rw [List.cons_append, tokens_blank _ hc, hwhole]
      rfl
  | @piece c cs text rest kind l ts hc hfirst _ ih =>
      have hafter : l.after (c :: cs) = (l.after text).after rest := by
        rw [← Token.Lexeme.append_of_first hfirst, Position.after_append]
      obtain ⟨inner, rfl, hinner, hwhole⟩ := ih
      dsimp only
      rw [hafter]
      refine ⟨⟨kind, String.ofList text, l⟩ :: inner, rfl, ?_, fun more => ?_⟩
      · exact List.forall_mem_cons.mpr ⟨(Token.Lexeme.first_kind hfirst).2, hinner⟩
      · rw [List.cons_append, tokens_piece _ hc (Token.Lexeme.first_newline hfirst), hwhole,
          Functor.map_map]
        rfl

end Cursor

/-- The place where a text starts that follows a source and a newline. -/
theorem Position.next_after (cs : List Char) :
    (Position.start.after cs).next '\n' = Position.start.lowered (cs.count '\n' + 1) := by
  rw [← Position.behind_nil, Position.after_behind]
  simp [Position.next, Position.behind, Position.lowered, Nat.add_assoc]

/-- A source with a newline and another source behind it comes to the tokens of the first and to
what the second comes to, on the lines below the first. -/
theorem tokenize_append {above : String} {ts : List Token} (habove : tokenize above = .ok ts) :
    ∃ inner last, ts = inner ++ [.endOfInput last] ∧ (∀ t ∈ inner, t.kind ≠ .endOfInput) ∧
      ∀ below, tokenize (above ++ "\n" ++ below) =
        (inner ++ ⟨.newline, "\n", last⟩ :: ·) <$>
          move (Position.lowered (above.toList.count '\n' + 1)) (tokenize below) := by
  obtain ⟨inner, hts, hinner, hwhole⟩ := (tokenize_eq_ok_iff.mp habove).tokens_newline
  refine ⟨inner, _, hts, hinner, fun below => ?_⟩
  have hbelow := Cursor.tokens_lowered (above.toList.count '\n' + 1) (.ofSource below)
  have hsource : Cursor.ofSource (above ++ "\n" ++ below) =
      ⟨above.toList ++ '\n' :: below.toList, .start⟩ := by
    simp [Cursor.ofSource]
  rw [tokenize, tokenize, hsource, ← hbelow]
  refine (hwhole below.toList).trans ?_
  dsimp only [Cursor.ofSource]
  rw [Position.next_after]

/-- Two sources with tokens have the tokens of both when they are put together. -/
theorem tokenize_joined {above below : String} {ts us : List Token}
    (habove : tokenize above = .ok ts) (hbelow : tokenize below = .ok us) :
    ∃ inner last, ts = inner ++ [.endOfInput last] ∧ (∀ t ∈ inner, t.kind ≠ .endOfInput) ∧
      tokenize (above ++ "\n" ++ below) = .ok (inner ++ ⟨.newline, "\n", last⟩ ::
        move (Position.lowered (above.toList.count '\n' + 1)) us) := by
  obtain ⟨inner, last, hts, hinner, hwhole⟩ := tokenize_append habove
  refine ⟨inner, last, hts, hinner, ?_⟩
  rw [hwhole below, hbelow]
  rfl

/-- Newlines separate: a source that can be read keeps its tokens whatever follows it on the next
lines. The token of the newline stands where the source ended. Behind it come the tokens of what
follows, further down by the lines of the source and in the same columns; and if what follows
cannot be read, neither can the whole, for the same cause, further down just as far. -/
theorem tokenize_newline {above : String} {ts : List Token} (habove : tokenize above = .ok ts) :
    ∃ inner last, ts = inner ++ [.endOfInput last] ∧ (∀ t ∈ inner, t.kind ≠ .endOfInput) ∧
      ∀ below, tokenize (above ++ "\n" ++ below) =
        match tokenize below with
        | .ok us => .ok (inner ++ ⟨.newline, "\n", last⟩ :: us.map fun t =>
            { t with location := t.location.lowered (above.toList.count '\n' + 1) })
        | .error e =>
            .error ⟨e.cause, e.location.lowered (above.toList.count '\n' + 1)⟩ := by
  obtain ⟨inner, last, hts, hinner, hwhole⟩ := tokenize_append habove
  refine ⟨inner, last, hts, hinner, fun below => ?_⟩
  rw [hwhole below]
  cases tokenize below with
  | ok us => rfl
  | error e => rfl

/-- A number sign at the end of a line takes no word from the next line, and a quote left open there
is reported where it stands. -/
theorem tokenize_newline_quote :
    tokenize "/*\n*/ #" = .ok [⟨.blockComment, "/*\n*/", ⟨1, 1⟩⟩,
        ⟨.directive .unknown, "#", ⟨2, 4⟩⟩, .endOfInput ⟨2, 5⟩] ∧
      tokenize ("/*\n*/ #" ++ "\n" ++ "if 'a") = .error ⟨.unclosedCharacter, ⟨3, 4⟩⟩ := by
  have habove : tokenize "/*\n*/ #" = .ok [⟨.blockComment, "/*\n*/", ⟨1, 1⟩⟩,
      ⟨.directive .unknown, "#", ⟨2, 4⟩⟩, .endOfInput ⟨2, 5⟩] := rfl
  have hbelow : tokenize "if 'a" = .error ⟨.unclosedCharacter, ⟨1, 4⟩⟩ := rfl
  obtain ⟨inner, last, -, -, hwhole⟩ := tokenize_newline habove
  refine ⟨habove, ?_⟩
  rw [hwhole, hbelow]
  rfl

end CSurvey
