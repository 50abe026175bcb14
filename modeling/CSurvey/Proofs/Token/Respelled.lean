import CSurvey.Proofs.Token.Written

/-! # Tokens written out again

The tokens of a source can be written down with nothing but a space before each of them, and they
are read back as they were. Every lexeme stops at a space or a newline. Only two kinds look past
one: a line comment, which a newline follows in any case, and a number sign that stands alone,
which would be a directive before another word than the one it had. -/

namespace CSurvey.Token

/-- How a token is written behind other tokens: a newline as it is, another one after a space. -/
def spaced (t : Token) : List Char :=
  if t.kind = .newline then t.text.toList else ' ' :: t.text.toList

/-- Tokens written one after the other. The end of input is not written. -/
def respelled (tokens : List Token) : List Char :=
  (tokens.filter (·.kind ≠ .endOfInput)).flatMap spaced

theorem respelled_newline (l : Position) (ts : List Token) :
    respelled (⟨.newline, "\n", l⟩ :: ts) = '\n' :: respelled ts := by
  simp [respelled, spaced]

theorem respelled_piece {kind : Kind} {c : Char} {cs text rest : List Char}
    (h : Lexeme.first c cs = .piece kind text rest) (l : Position) (ts : List Token) :
    respelled (⟨kind, String.ofList text, l⟩ :: ts) = ' ' :: (text ++ respelled ts) := by
  obtain ⟨hnewline, hend⟩ := Lexeme.first_kind h
  simp [respelled, spaced, hnewline, hend]

/-! ## Where a lexeme stops -/

/-- A space, a newline or nothing stands in front. -/
def IsApart (cs : List Char) : Prop :=
  ∀ x ∈ cs.head?, x = ' ' ∨ x = '\n'

/-- The end of the line stands in front. -/
def EndsLine (cs : List Char) : Prop :=
  ∀ x ∈ cs.head?, x = '\n'

/-- The word behind the gap at the front. -/
def nextWord (cs : List Char) : List Char :=
  (cs.dropWhile isGap).takeWhile continuesWord

/-- Nothing in the text is taken along with a piece of the kind before it: a line comment needs the
end of the line there, a directive the end of its word, and a bare number sign anything but the word
of a directive. -/
structure Kind.Stops (k : Kind) (rest : List Char) : Prop where
  ends : k.Ends rest
  line : k = .lineComment → EndsLine rest
  word : ∀ d, k = .directive d → d ≠ .unknown → Kind.identifier.Ends rest
  marker : k = .directive .unknown → Directive.ofWord? (nextWord rest) = none

theorem Kind.ends_of_isApart (k : Kind) {cs : List Char} (h : IsApart cs) : k.Ends cs := by
  have hoperator : ∀ o ∈ Operator.all,
      (Kind.operator o).runsOn ' ' = false ∧ (Kind.operator o).runsOn '\n' = false := by
    decide
  intro c hc
  rcases h c hc with rfl | rfl
  · cases k with
    | operator o => exact (hoperator o o.mem_all).1
    | _ => rfl
  · cases k with
    | operator o => exact (hoperator o o.mem_all).2
    | _ => rfl

theorem Kind.Stops.of_ends {k : Kind} {cs : List Char} (h : k.Ends cs) (hline : k ≠ .lineComment)
    (hdirective : ∀ d, k ≠ .directive d) : k.Stops cs :=
  ⟨h, fun hk => absurd hk hline, fun d hk _ => absurd hk (hdirective d),
    fun hk => absurd hk (hdirective _)⟩

/-- Before a text that stands apart, only line comments and bare number signs look further. -/
theorem Kind.stops_of_isApart {k : Kind} {cs : List Char} (h : IsApart cs)
    (hline : k = .lineComment → EndsLine cs)
    (hmarker : k = .directive .unknown → Directive.ofWord? (nextWord cs) = none) : k.Stops cs :=
  ⟨k.ends_of_isApart h, hline, fun _ _ _ => Kind.ends_of_isApart .identifier h, hmarker⟩

namespace Lexeme

variable {c : Char} {cs cs' text rest more : List Char} {kind : Kind}

theorem ofWord?_ne_unknown (w : List Char) : Directive.ofWord? w ≠ some .unknown := by
  intro h
  cases w with
  | nil => simp [Directive.ofWord?] at h
  | cons c cs =>
      rw [Directive.ofWord?, if_neg (by simp)] at h
      have hspelling := List.find?_some h
      simp [Directive.word, lowerWord] at hspelling

/-- An operator that is cut off is the longest one. -/
theorem ends_operator? {o : Operator} (h : operator? (o.spelling.toList ++ rest) = some o) :
    ∀ x ∈ rest.head?, Operator.ofSpelling? (o.spelling.toList ++ [x]) = none := by
  intro x hx
  obtain ⟨more, rfl⟩ := List.head?_eq_some_iff.mp hx
  by_contra hsome
  obtain ⟨longer, hlonger⟩ := Option.ne_none_iff_exists'.mp hsome
  have hlength := (length_spelling longer longer.mem_all).1
  rw [Operator.spelling_of_ofSpelling? hlonger] at hlength
  have htake : (o.spelling.toList ++ x :: more).take (o.spelling.toList ++ [x]).length =
      o.spelling.toList ++ [x] := by
    show ((o.spelling.toList ++ ([x] ++ more)).take _) = _
    rw [← List.append_assoc]
    exact List.take_left
  have hle := le_length_operator? h hlength (by simp) (by rw [htake, hlonger]; rfl)
  simp at hle

theorem stops_sign (hslash : c = '/' → ∀ x ∈ cs.head?, x ≠ '/' ∧ x ≠ '*')
    (h : sign c cs = .piece kind text rest) : kind.Stops rest := by
  unfold sign at h
  split at h
  · rename_i o ho
    obtain ⟨rfl, -, rfl⟩ := Lexeme.piece.inj h
    obtain ⟨n, -, hspelt⟩ := List.exists_of_findSome?_eq_some ho
    have hspelling := Operator.spelling_of_ofSpelling? hspelt
    obtain ⟨more, hmore⟩ : o.spelling.toList <+: c :: cs := hspelling ▸ List.take_prefix n _
    have hdrop : (c :: cs).drop o.spelling.toList.length = more := by
      rw [← hmore, List.drop_left]
    rw [hdrop]
    refine .of_ends (fun x hx => ?_) (by simp) (by simp)
    have hspelt' : operator? (o.spelling.toList ++ more) = some o := by rwa [hmore]
    have hlongest := ends_operator? hspelt' x hx
    have hcomment : ¬(o = .slash ∧ (x = '/' ∨ x = '*')) := by
      rintro ⟨rfl, hcomment⟩
      obtain ⟨rfl, rfl⟩ : '/' = c ∧ more = cs := List.cons.inj hmore
      obtain ⟨hline, hblock⟩ := hslash rfl x hx
      exact hcomment.elim hline hblock
    simp only [Kind.runsOn, hlongest, Option.isSome_none, Bool.false_or]
    simpa using hcomment
  · split at h
    · obtain ⟨rfl, -, -⟩ := Lexeme.piece.inj h
      exact .of_ends (fun _ _ => rfl) (by simp) (by simp)
    · contradiction

theorem stops_directive (h : directive cs = .piece kind text rest) : kind.Stops rest := by
  unfold directive at h
  dsimp only at h
  split at h
  · rename_i d hword
    obtain ⟨rfl, -, rfl⟩ := Lexeme.piece.inj h
    refine ⟨fun _ _ => rfl, by simp, fun _ _ _ => head?_dropWhile _, fun hd => ?_⟩
    rw [Kind.directive.inj hd] at hword
    exact absurd hword (ofWord?_ne_unknown _)
  · rename_i hword
    obtain ⟨rfl, -, rfl⟩ := Lexeme.piece.inj h
    exact ⟨fun _ _ => rfl, by simp, fun d hd hne => absurd (Kind.directive.inj hd).symm hne,
      fun _ => hword⟩

/-- Nothing that follows a lexeme is taken along with it. -/
theorem stops_first (h : first c cs = .piece kind text rest) : kind.Stops rest := by
  unfold first at h
  split at h
  · obtain ⟨rfl, -, rfl⟩ := Lexeme.piece.inj h
    refine ⟨fun _ _ => rfl, fun _ x hx => ?_, by simp, by simp⟩
    simpa using head?_dropWhile _ x hx
  · unfold blockComment at h
    split at h
    · obtain ⟨rfl, -, -⟩ := Lexeme.piece.inj h
      exact .of_ends (fun _ _ => rfl) (by simp) (by simp)
    · contradiction
  · unfold quoted at h
    split at h
    · obtain ⟨rfl, -, -⟩ := Lexeme.piece.inj h
      exact .of_ends (fun _ _ => rfl) (by simp) (by simp)
    · contradiction
  · unfold quoted at h
    split at h
    · obtain ⟨rfl, -, -⟩ := Lexeme.piece.inj h
      exact .of_ends (fun _ _ => rfl) (by simp) (by simp)
    · contradiction
  · exact stops_directive h
  · rename_i hline hblock
    split at h
    · obtain ⟨rfl, -, rfl⟩ := Lexeme.piece.inj h
      exact .of_ends (head?_dropWhile _) (by simp) (by simp)
    · split at h
      · unfold word at h
        dsimp only at h
        split at h
        · obtain ⟨rfl, -, rfl⟩ := Lexeme.piece.inj h
          exact .of_ends (head?_dropWhile _) (by simp) (by simp)
        · obtain ⟨rfl, -, rfl⟩ := Lexeme.piece.inj h
          exact .of_ends (head?_dropWhile _) (by simp) (by simp)
      · refine stops_sign (fun hc x hx => ?_) h
        obtain ⟨more, rfl⟩ := List.head?_eq_some_iff.mp hx
        refine ⟨?_, ?_⟩
        · rintro rfl
          exact hline more hc rfl
        · rintro rfl
          exact hblock more hc rfl

theorem eq_cons_of_first (h : first c cs = .piece kind text rest) : ∃ cs', text = c :: cs' := by
  obtain ⟨x, cs', rfl⟩ := List.exists_cons_of_ne_nil (first_ne_nil h)
  exact ⟨cs', by rw [(List.cons.inj (append_of_first h)).1]⟩

/-! ## Each lexeme before another text -/

theorem closeComment_ne_nil (h : closeComment cs = some (text, rest)) : text ≠ [] := by
  fun_induction closeComment cs with
  | case1 =>
      obtain ⟨rfl, -⟩ := Prod.mk.inj (Option.some.inj h)
      simp
  | case2 c tail hno ih =>
      obtain ⟨⟨text', rest'⟩, -, hmade⟩ := Option.map_eq_some_iff.mp h
      obtain ⟨rfl, -⟩ := Prod.mk.inj hmade
      simp
  | case3 => simp at h

theorem closeComment_again (h : closeComment cs = some (text, rest)) :
    closeComment (text ++ more) = some (text, more) := by
  fun_induction closeComment cs generalizing text rest with
  | case1 =>
      obtain ⟨rfl, -⟩ := Prod.mk.inj (Option.some.inj h)
      rfl
  | case2 c tail hno ih =>
      obtain ⟨⟨text', rest'⟩, hfound, hmade⟩ := Option.map_eq_some_iff.mp h
      obtain ⟨rfl, rfl⟩ := Prod.mk.inj hmade
      obtain ⟨d, text', rfl⟩ := List.exists_cons_of_ne_nil (closeComment_ne_nil hfound)
      rw [List.cons_append, closeComment, ih hfound]
      · rfl
      · intro tail' hc hslash
        refine hno (text' ++ rest') hc ?_
        rw [← closeComment_append hfound, (List.cons.inj hslash).1]
        rfl
  | case3 => simp at h

theorem blockComment_again (h : blockComment cs = .piece kind ('/' :: '*' :: text) rest) :
    blockComment (text ++ more) = .piece kind ('/' :: '*' :: text) more := by
  unfold blockComment at h
  split at h
  · rename_i hclose
    obtain ⟨rfl, htext, rfl⟩ := Lexeme.piece.inj h
    obtain rfl := (List.cons.inj (List.cons.inj htext).2).2
    rw [blockComment, closeComment_again hclose]
  · contradiction

theorem lineComment_again (hmore : EndsLine more) :
    first '/' ('/' :: (cs.takeWhile (· ≠ '\n') ++ more)) =
      .piece .lineComment ('/' :: '/' :: cs.takeWhile (· ≠ '\n')) more := by
  have hinner : ∀ x ∈ cs.takeWhile (· ≠ '\n'), decide (x ≠ '\n') = true := fun x hx =>
    List.mem_takeWhile_imp (p := fun x => decide (x ≠ '\n')) hx
  obtain ⟨htake, hdrop⟩ := takeWhile_append hinner (by simpa [EndsLine] using hmore)
  show Lexeme.piece .lineComment ('/' :: '/' :: (_ ++ more).takeWhile (· ≠ '\n'))
    ((_ ++ more).dropWhile (· ≠ '\n')) = _
  rw [htake, hdrop]

/-- The word of a directive starts like a word, in whatever letter case it is written. -/
theorem startsWord_of_ofWord? {d : Directive} (h : Directive.ofWord? (c :: cs) = some d) :
    startsWord c = true := by
  have hheads : ∀ d ∈ Directive.all, d.word.toList.head?.all startsWord = true := by
    decide
  unfold Directive.ofWord? at h
  rw [if_neg (by simp)] at h
  have hspelling : d.word.toList = lowerCase c :: lowerWord cs := by
    simpa [lowerWord] using List.find?_some h
  refine startsWord_of_lowerCase ?_
  simpa [hspelling] using hheads d (List.mem_of_find?_eq_some h)

theorem directive_again {d : Directive}
    (h : directive cs = .piece (.directive d) ('#' :: text) rest)
    (hmore : (Kind.directive d).Stops more) :
    directive (text ++ more) = .piece (.directive d) ('#' :: text) more := by
  unfold directive at h
  dsimp only at h
  split at h
  · rename_i d' hword
    obtain ⟨hd, htext, rfl⟩ := Lexeme.piece.inj h
    obtain rfl := Kind.directive.inj hd
    obtain rfl := (List.cons.inj htext).2
    have hgap : ∀ x ∈ cs.takeWhile isGap, isGap x = true := fun x hx => List.mem_takeWhile_imp hx
    have hall : ∀ x ∈ (cs.dropWhile isGap).takeWhile continuesWord, continuesWord x = true :=
      fun x hx => List.mem_takeWhile_imp hx
    generalize (cs.dropWhile isGap).takeWhile continuesWord = name at hword hall ⊢
    have hfront : ∀ x ∈ (name ++ more).head?, isGap x = false := by
      cases name with
      | nil => simp [Directive.ofWord?] at hword
      | cons x name =>
          have hblank := isBlank_of_startsWord (startsWord_of_ofWord? hword)
          simp [isGap, hblank]
    have hunknown : d' ≠ .unknown := fun hd => ofWord?_ne_unknown _ (hd ▸ hword)
    obtain ⟨hname, hrest⟩ := takeWhile_append hall (hmore.word d' rfl hunknown)
    obtain ⟨htake, hdrop⟩ := takeWhile_append hgap hfront
    rw [directive, List.append_assoc, htake, hdrop, hname, hrest, hword]
  · obtain ⟨hd, htext, rfl⟩ := Lexeme.piece.inj h
    obtain rfl := Kind.directive.inj hd
    obtain rfl := (List.cons.inj htext).2
    have hnone := hmore.marker rfl
    unfold nextWord at hnone
    simp [directive, hnone]

theorem quoted_again {quote : Char} {kind' : Kind} {flaw : Flaw}
    (hquote : quote ≠ '\n' ∧ quote ≠ '\\')
    (h : quoted quote kind flaw cs = .piece kind' (quote :: text) rest) :
    quoted quote kind flaw (text ++ more) = .piece kind' (quote :: text) more := by
  unfold quoted at h
  split at h
  · rename_i inner left hclose
    obtain ⟨rfl, htext, rfl⟩ := Lexeme.piece.inj h
    obtain rfl := (List.cons.inj htext).2
    obtain ⟨inside, rfl, hinside⟩ := inside_of_closeQuote hclose
    rw [quoted, List.append_assoc, hinside]
    simp [closeQuote_quote hquote]
  · contradiction

theorem word_again (hc : startsWord c = true) (h : word (c :: cs) = .piece kind (c :: text) rest)
    (hmore : kind.Ends more) : first c (text ++ more) = .piece kind (c :: text) more := by
  have htake : (c :: cs).takeWhile continuesWord = c :: cs.takeWhile continuesWord :=
    List.takeWhile_cons_of_pos (continuesWord_of_startsWord hc)
  have hall : ∀ x ∈ cs.takeWhile continuesWord, continuesWord x = true := fun x hx =>
    List.mem_takeWhile_imp hx
  unfold word at h
  rw [htake] at h
  dsimp only at h
  split at h
  · rename_i hkeyword
    obtain ⟨rfl, htext, -⟩ := Lexeme.piece.inj h
    obtain rfl := (List.cons.inj htext).2
    rw [first_word hc hall hmore, hkeyword]
    rfl
  · rename_i hkeyword
    obtain ⟨rfl, htext, -⟩ := Lexeme.piece.inj h
    obtain rfl := (List.cons.inj htext).2
    rw [first_word hc hall hmore, hkeyword]
    rfl

theorem sign_again (h : sign c cs = .piece kind (c :: text) rest) (hmore : kind.Ends more) :
    first c (text ++ more) = .piece kind (c :: text) more := by
  unfold sign at h
  split at h
  · rename_i o _
    obtain ⟨rfl, htext, -⟩ := Lexeme.piece.inj h
    exact first_operator htext hmore
  · split at h
    · rename_i d hd
      obtain ⟨rfl, htext, -⟩ := Lexeme.piece.inj h
      obtain rfl := (List.cons.inj htext).2
      exact first_delimiter more (by simpa using List.find?_some hd)
    · contradiction

/-- A lexeme is cut off again where nothing that follows its text is taken along. -/
theorem first_again (h : first c cs = .piece kind (c :: text) rest) (hmore : kind.Stops more) :
    first c (text ++ more) = .piece kind (c :: text) more := by
  unfold first at h
  split at h
  · obtain ⟨rfl, htext, -⟩ := Lexeme.piece.inj h
    obtain rfl := (List.cons.inj htext).2
    exact lineComment_again (hmore.line rfl)
  · obtain ⟨text, rfl⟩ : ∃ text', text = '*' :: text' := by
      unfold blockComment at h
      split at h
      · exact ⟨_, (List.cons.inj (Lexeme.piece.inj h).2.1).2.symm⟩
      · contradiction
    exact blockComment_again h
  · exact quoted_again (by decide) h
  · exact quoted_again (by decide) h
  · obtain ⟨d, rfl⟩ : ∃ d, kind = .directive d := by
      unfold directive at h
      dsimp only at h
      split at h <;> exact ⟨_, (Lexeme.piece.inj h).1.symm⟩
    exact directive_again h hmore
  · split at h
    · rename_i hdigit
      obtain ⟨rfl, htext, -⟩ := Lexeme.piece.inj h
      obtain rfl := (List.cons.inj htext).2
      exact first_number hdigit (fun x hx => List.mem_takeWhile_imp hx) hmore.ends
    · split at h
      · exact word_again ‹_› h hmore.ends
      · exact sign_again h hmore.ends

/-- Before a text of which nothing is taken along, the next word is that of the text that was
read. -/
theorem nextWord_again (hc : Text.isBlank c = false)
    (h : first c cs = .piece kind (c :: text) rest) (hmore : kind.Ends more)
    (hnone : Directive.ofWord? (nextWord (c :: cs)) = none) :
    Directive.ofWord? (nextWord (c :: (text ++ more))) = none := by
  have hnext : ∀ cs, nextWord (c :: cs) = (c :: cs).takeWhile continuesWord := by
    intro cs
    rw [nextWord, List.dropWhile_cons_of_neg (by simp [isGap, hc])]
  rw [hnext] at hnone ⊢
  by_cases hword : startsWord c = true
  · -- The piece is this very word.
    obtain ⟨hwhole, hends⟩ : c :: text = (c :: cs).takeWhile continuesWord ∧
        Kind.identifier.Ends more := by
      rw [first_of_startsWord hword, word] at h
      split at h
      all_goals
        obtain ⟨rfl, htext, -⟩ := Lexeme.piece.inj h
        exact ⟨htext.symm, hmore⟩
    have hall : ∀ x ∈ c :: text, continuesWord x = true := by
      rw [hwhole]
      exact fun x hx => List.mem_takeWhile_imp hx
    rw [← List.cons_append, (takeWhile_append hall hends).1, hwhole]
    exact hnone
  · cases hd : Directive.ofWord? ((c :: (text ++ more)).takeWhile continuesWord) with
    | none => rfl
    | some d =>
        by_cases hgoes : continuesWord c = true
        · rw [List.takeWhile_cons_of_pos hgoes] at hd
          exact absurd (startsWord_of_ofWord? hd) hword
        · rw [List.takeWhile_cons_of_neg hgoes] at hd
          simp [Directive.ofWord?] at hd

end Lexeme

end CSurvey.Token

namespace CSurvey

open Token

/-! ## The whole run -/

namespace Cursor.Reads

variable {c : Cursor} {ts : List Token}

theorem isApart_respelled (h : c.Reads ts) : IsApart (respelled ts) := by
  induction h with
  | finished l => simp [IsApart, respelled, Token.endOfInput]
  | newline h _ => simp [IsApart, respelled_newline]
  | blank _ _ ih => exact ih
  | piece _ hfirst _ _ => simp [IsApart, respelled_piece hfirst]

theorem endsLine_respelled (h : c.Reads ts) (hline : EndsLine c.rest) :
    EndsLine (respelled ts) := by
  cases h with
  | finished l => simp [EndsLine, respelled, Token.endOfInput]
  | newline h => simp [EndsLine, respelled_newline]
  | blank hc _ =>
      obtain rfl := hline _ rfl
      simp [isGap] at hc
  | piece hc _ _ =>
      obtain rfl := hline _ rfl
      simp [Text.isBlank_newline] at hc

theorem nextWord_respelled (h : c.Reads ts) (hnone : Directive.ofWord? (nextWord c.rest) = none) :
    Directive.ofWord? (nextWord (respelled ts)) = none := by
  induction h with
  | finished l => rfl
  | newline h _ =>
      rw [respelled_newline]
      rfl
  | blank hc _ ih =>
      refine ih ?_
      rwa [nextWord, List.dropWhile_cons_of_pos hc] at hnone
  | piece hc hfirst h _ =>
      obtain ⟨text, rfl⟩ := Lexeme.eq_cons_of_first hfirst
      rw [respelled_piece hfirst, nextWord, List.dropWhile_cons_of_pos (by decide)]
      exact Lexeme.nextWord_again hc hfirst (Kind.ends_of_isApart _ h.isApart_respelled) hnone

/-- What follows a lexeme is such that the lexeme is read back before it. -/
theorem first_respelled {x : Char} {cs text rest : List Char} {kind : Kind} {l : Position}
    (hfirst : Lexeme.first x cs = .piece kind (x :: text) rest) (h : Reads ⟨rest, l⟩ ts) :
    Lexeme.first x (text ++ respelled ts) = .piece kind (x :: text) (respelled ts) := by
  have hstops := Lexeme.stops_first hfirst
  exact Lexeme.first_again hfirst (Kind.stops_of_isApart h.isApart_respelled
    (fun hkind => h.endsLine_respelled (hstops.line hkind))
    fun hkind => h.nextWord_respelled (hstops.marker hkind))

theorem again (h : c.Reads ts) (l : Position) :
    ∃ us, Reads ⟨respelled ts, l⟩ us ∧ us.map Token.word = ts.map Token.word := by
  induction h generalizing l with
  | finished l' => exact ⟨_, .finished l, rfl⟩
  | @newline cs l' ts _ ih =>
      obtain ⟨us, hus, hwords⟩ := ih (l.next '\n')
      rw [respelled_newline]
      exact ⟨⟨.newline, "\n", l⟩ :: us, .newline hus, by simp [hwords, Token.word]⟩
  | blank _ _ ih => exact ih l
  | @piece x cs text rest kind l' ts hc hfirst h ih =>
      obtain ⟨text, rfl⟩ := Lexeme.eq_cons_of_first hfirst
      obtain ⟨us, hus, hwords⟩ := ih ((l.next ' ').after (x :: text))
      rw [respelled_piece hfirst]
      refine ⟨⟨kind, String.ofList (x :: text), l.next ' '⟩ :: us, ?_, ?_⟩
      · exact .blank (by decide) (.piece hc (first_respelled hfirst h) hus)
      · simp [hwords, Token.word]

end Cursor.Reads

/-- Tokens that were read are read back when they are written one after the other, each but the
newlines behind a space: of the same kinds, with the same texts, in the same order. -/
theorem tokenize_respelled {source : String} {ts : List Token} (h : tokenize source = .ok ts) :
    ∃ us, tokenize (String.ofList (respelled ts)) = .ok us ∧
      us.map Token.word = ts.map Token.word := by
  obtain ⟨us, hus, hwords⟩ := (tokenize_eq_ok_iff.mp h).again .start
  refine ⟨us, tokenize_eq_ok_iff.mpr ?_, hwords⟩
  simpa [Cursor.ofSource] using hus

/-- A bare number sign, a line comment and a directive whose letters are capitals. -/
theorem tokenize_respelled_marker :
    tokenize "#x//y\n# ELSE" = .ok [⟨.directive .unknown, "#", ⟨1, 1⟩⟩,
        ⟨.identifier, "x", ⟨1, 2⟩⟩, ⟨.lineComment, "//y", ⟨1, 3⟩⟩, ⟨.newline, "\n", ⟨1, 6⟩⟩,
        ⟨.directive .otherwise, "# ELSE", ⟨2, 1⟩⟩, .endOfInput ⟨2, 7⟩] ∧
      ∃ us, tokenize " # x //y\n # ELSE" = .ok us ∧
        us.map Token.word = [(.directive .unknown, "#"), (.identifier, "x"),
          (.lineComment, "//y"), (.newline, "\n"), (.directive .otherwise, "# ELSE"),
          (.endOfInput, "")] := by
  have hsource : tokenize "#x//y\n# ELSE" = .ok [⟨.directive .unknown, "#", ⟨1, 1⟩⟩,
      ⟨.identifier, "x", ⟨1, 2⟩⟩, ⟨.lineComment, "//y", ⟨1, 3⟩⟩, ⟨.newline, "\n", ⟨1, 6⟩⟩,
      ⟨.directive .otherwise, "# ELSE", ⟨2, 1⟩⟩, .endOfInput ⟨2, 7⟩] := rfl
  obtain ⟨us, hus, hwords⟩ := tokenize_respelled hsource
  exact ⟨hsource, us, hus, hwords⟩

end CSurvey
