import CSurvey.Proofs.Grammar.Items
import CSurvey.Proofs.Grammar.Words
import CSurvey.Proofs.Token.Tiling

/-! # The words that a text spells

Reading a text as tokens and leaving out what a reader steps over comes to a list of words. -/

namespace CSurvey

/-- The text spells the words, with white space and comments anywhere between them. -/
inductive Spells : List Char → List Word → Prop where
  | nil : Spells [] []
  | blank {c : Char} {cs : List Char} {ws : List Word} (hc : Text.isBlank c = true) :
      Spells cs ws → Spells (c :: cs) ws
  | comment {c : Char} {cs text rest : List Char} {ws : List Word} {kind : Token.Kind}
      (hc : Text.isBlank c = false) (hfirst : Token.Lexeme.first c cs = .piece kind text rest)
      (hkind : kind.isComment = true) :
      Spells rest ws → Spells (c :: cs) ws
  | word {c : Char} {cs text rest : List Char} {ws : List Word} {kind : Token.Kind}
      (hc : Text.isBlank c = false) (hfirst : Token.Lexeme.first c cs = .piece kind text rest)
      (hkind : kind.isComment = false) :
      Spells rest ws → Spells (c :: cs) ((kind, String.ofList text) :: ws)

namespace Spells

variable {c : Char} {cs text rest : List Char} {kind : Token.Kind} {ws : List Word}

/-- What is cut off first is the first word, if it is no comment. -/
theorem of_first (h : Spells (c :: cs) ws) (hc : Text.isBlank c = false)
    (hfirst : Token.Lexeme.first c cs = .piece kind text rest) (hkind : kind.isComment = false) :
    ∃ ws', ws = (kind, String.ofList text) :: ws' ∧ Spells rest ws' := by
  cases h with
  | blank hc' => simp [hc] at hc'
  | comment _ hfirst' hkind' =>
      obtain ⟨rfl, -, -⟩ := Token.Lexeme.piece.inj (hfirst.symm.trans hfirst')
      simp [hkind] at hkind'
  | word _ hfirst' _ h =>
      obtain ⟨rfl, rfl, rfl⟩ := Token.Lexeme.piece.inj (hfirst.symm.trans hfirst')
      exact ⟨_, rfl, h⟩

end Spells

/-- Only behind a slash a comment is cut off. -/
theorem Token.Lexeme.eq_slash_of_isComment {c : Char} {cs text rest : List Char}
    {kind : Token.Kind} (h : first c cs = .piece kind text rest) (hkind : kind.isComment = true) :
    c = '/' := by
  unfold first quoted blockComment directive word sign at h
  dsimp only at h
  repeat' split at h
  all_goals first
    | rfl
    | (obtain ⟨rfl, -, -⟩ := Lexeme.piece.inj h; contradiction)
    | simp at h

/-- A text without a slash has no comments. -/
theorem Cursor.Reads.uncommented {c : Cursor} {tokens : List Token} (h : c.Reads tokens)
    (hslash : '/' ∉ c.rest) : ∀ t ∈ tokens, t.kind.isComment = false := by
  induction h with
  | finished l => simp [Token.endOfInput, Token.Kind.isComment]
  | newline _ ih =>
      exact List.forall_mem_cons.mpr ⟨rfl, ih (List.not_mem_of_not_mem_cons hslash)⟩
  | blank _ _ ih => exact ih (List.not_mem_of_not_mem_cons hslash)
  | @piece c cs text rest kind l ts _ hfirst _ ih =>
      refine List.forall_mem_cons.mpr ⟨?_, ih fun hmem => hslash ?_⟩
      · by_contra hkind
        obtain rfl := Token.Lexeme.eq_slash_of_isComment hfirst (by simpa using hkind)
        exact hslash (List.mem_cons_self ..)
      · show '/' ∈ c :: cs
        rw [← Token.Lexeme.append_of_first hfirst]
        exact List.mem_append_right _ hmem

/-- Whether a token is a word. -/
def Token.isWord (t : Token) : Bool :=
  !(t.kind.isComment || t.kind = .newline)

/-- The words among the tokens. -/
def wordsOf (tokens : List Token) : List Word :=
  (tokens.filter Token.isWord).map Token.word

theorem wordsOf_cons (t : Token) (ts : List Token) :
    wordsOf (t :: ts) = if t.isWord then t.word :: wordsOf ts else wordsOf ts := by
  by_cases ht : t.isWord = true
  · simp [wordsOf, ht]
  · simp [wordsOf, ht]

/-- The words among the tokens of a text are those that it spells. -/
theorem Cursor.Reads.spells {c : Cursor} {tokens : List Token} (h : c.Reads tokens) :
    ∃ inner last, tokens = inner ++ [.endOfInput last] ∧
      (∀ t ∈ inner, t.kind ≠ .endOfInput) ∧ Spells c.rest (wordsOf inner) := by
  induction h with
  | finished l => exact ⟨[], l, rfl, by simp, .nil⟩
  | @newline cs l ts _ ih =>
      obtain ⟨inner, last, rfl, hinner, hws⟩ := ih
      refine ⟨⟨.newline, "\n", l⟩ :: inner, last, rfl, ?_, .blank Text.isBlank_newline hws⟩
      exact List.forall_mem_cons.mpr ⟨by simp, hinner⟩
  | blank hc _ ih =>
      obtain ⟨inner, last, rfl, hinner, hws⟩ := ih
      exact ⟨inner, last, rfl, hinner, .blank (Bool.and_eq_true_iff.mp hc).1 hws⟩
  | @piece c cs text rest kind l ts hc hfirst _ ih =>
      obtain ⟨inner, last, rfl, hinner, hws⟩ := ih
      have hkind := Token.Lexeme.first_kind hfirst
      refine ⟨⟨kind, String.ofList text, l⟩ :: inner, last, rfl, ?_, ?_⟩
      · exact List.forall_mem_cons.mpr ⟨hkind.2, hinner⟩
      · by_cases hcomment : kind.isComment = true
        · rw [wordsOf_cons, if_neg (by simp [Token.isWord, hcomment])]
          exact .comment hc hfirst hcomment hws
        · rw [wordsOf_cons, if_pos (by simp [Token.isWord, hcomment, hkind.1])]
          exact .word hc hfirst (by simpa using hcomment) hws

/-- A text that spells words has tokens, wherever it starts. -/
theorem Spells.reads {rest : List Char} {ws : List Word} (h : Spells rest ws) (l : Position) :
    ∃ inner last, Cursor.Reads ⟨rest, l⟩ (inner ++ [.endOfInput last]) ∧
      (∀ t ∈ inner, t.kind ≠ .endOfInput) ∧ wordsOf inner = ws := by
  induction h generalizing l with
  | nil => exact ⟨[], l, .finished l, by simp, rfl⟩
  | @blank c cs ws hc _ ih =>
      obtain ⟨inner, last, hreads, hinner, hws⟩ := ih (l.next c)
      by_cases hnl : c = '\n'
      · subst hnl
        refine ⟨⟨.newline, "\n", l⟩ :: inner, last, .newline hreads, ?_, ?_⟩
        · exact List.forall_mem_cons.mpr ⟨by simp, hinner⟩
        · rw [wordsOf_cons, if_neg (by simp [Token.isWord]), hws]
      · exact ⟨inner, last, .blank (by simp [Token.isGap, hc, hnl]) hreads, hinner, hws⟩
  | @comment c cs text rest ws kind hc hfirst hkind _ ih =>
      obtain ⟨inner, last, hreads, hinner, hws⟩ := ih (l.after text)
      refine ⟨⟨kind, String.ofList text, l⟩ :: inner, last, .piece hc hfirst hreads, ?_, ?_⟩
      · exact List.forall_mem_cons.mpr ⟨(Token.Lexeme.first_kind hfirst).2, hinner⟩
      · rw [wordsOf_cons, if_neg (by simp [Token.isWord, hkind]), hws]
  | @word c cs text rest ws kind hc hfirst hkind _ ih =>
      obtain ⟨inner, last, hreads, hinner, hws⟩ := ih (l.after text)
      have hkinds := Token.Lexeme.first_kind hfirst
      refine ⟨⟨kind, String.ofList text, l⟩ :: inner, last, .piece hc hfirst hreads, ?_, ?_⟩
      · exact List.forall_mem_cons.mpr ⟨hkinds.2, hinner⟩
      · rw [wordsOf_cons, if_pos (by simp [Token.isWord, hkind, hkinds.1]), hws]
        rfl

/-- The words of a state before tokens that only the last one ends. -/
theorem Grammar.State.ofTokens_script {inner : List Token} (last : Position) (limit : Nat)
    (h : ∀ t ∈ inner, t.kind ≠ .endOfInput) :
    (State.ofTokens (inner ++ [.endOfInput last]) limit).script = wordsOf inner := by
  rw [script, words, State.ofTokens_rest last limit h]
  congr 1
  refine List.filter_congr fun t _ => ?_
  simp [isPassed, Token.isWord, State.ofTokens]

/-- The words of a token list are those that its source spells. -/
theorem spells_of_tokenize {source : String} {tokens : List Token}
    (h : tokenize source = .ok tokens) (limit : Nat) :
    Spells source.toList (Grammar.State.ofTokens tokens limit).script := by
  obtain ⟨inner, last, rfl, hinner, hws⟩ := (tokenize_eq_ok_iff.mp h).spells
  rw [Grammar.State.ofTokens_script last limit hinner]
  exact hws

/-- A source that spells words has tokens. -/
theorem tokenize_of_spells {source : String} {ws : List Word} (h : Spells source.toList ws) :
    ∃ tokens, tokenize source = .ok tokens ∧
      ∀ limit, (Grammar.State.ofTokens tokens limit).script = ws := by
  obtain ⟨inner, last, hreads, hinner, hws⟩ := h.reads .start
  refine ⟨_, tokenize_eq_ok_iff.mpr hreads, ?_⟩
  intro limit
  rw [Grammar.State.ofTokens_script last limit hinner, hws]

end CSurvey
