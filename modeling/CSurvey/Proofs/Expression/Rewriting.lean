import CSurvey.Proofs.Expression.Printing
import CSurvey.Proofs.Number.ReadBack

/-! # Words written anew

The words of a type or a literal that a lexer cut off, written once more from what a tree keeps of
them: the text of the type, the number or what stands between the quotes. -/

namespace CSurvey

open Token (continuesWord)

/-! ## Words that a lexer cut off -/

/-- A word of a kind that has no spelling of its own, or an operator or a delimiter, is written as
it reads. -/
def Word.Cut (w : Word) : Prop :=
  (∀ k, w.1 ≠ .keyword k) → (∀ d, w.1 ≠ .directive d) → w.Written

theorem Word.Cut.operator {w : Word} {o : Token.Operator} (hw : w.Cut) (h : w.1 = .operator o) :
    w = operatorWord o := by
  have hwritten := hw (by simp [h]) (by simp [h])
  cases hwritten with
  | operator =>
      obtain rfl := Token.Kind.operator.inj h
      rfl
  | _ => contradiction

theorem Word.Cut.delimiter {w : Word} {d : Token.Delimiter} (hw : w.Cut) (h : w.1 = .delimiter d) :
    w = delimiterWord d := by
  have hwritten := hw (by simp [h]) (by simp [h])
  cases hwritten with
  | delimiter =>
      obtain rfl := Token.Kind.delimiter.inj h
      rfl
  | _ => contradiction

theorem Word.Cut.identifier {w : Word} (hw : w.Cut) (h : w.1 = .identifier) :
    Word.Written (.identifier, w.2) := by
  rw [← h]
  exact hw (by simp [h]) (by simp [h])

/-! ## Types -/

/-- A word in the spelling of its kind. -/
def Word.spelled (w : Word) : Word := (w.1, w.spelling)

@[simp] theorem Word.spelling_spelled (w : Word) : w.spelled.spelling = w.spelling := by
  unfold Word.spelled Word.spelling
  cases w.1.spelling? <;> rfl

theorem Word.written_spelled {w : Word} {k : Token.Keyword} (h : w.1 = .keyword k) :
    w.spelled.Written := by
  have hspelled : w.spelled = (.keyword k, k.spelling) := by
    rw [Word.spelled, Word.spelling, h]
    rfl
  rw [hspelled]
  exact .keyword k

theorem Token.Kind.exists_keyword_of_isTypeModifier {k : Token.Kind}
    (h : k.isTypeModifier = true) : ∃ word, k = .keyword word := by
  cases k <;> first | exact ⟨_, rfl⟩ | contradiction

theorem Token.Kind.exists_keyword_of_isBaseType {k : Token.Kind} (h : k.isBaseType = true) :
    ∃ word, k = .keyword word := by
  cases k <;> first | exact ⟨_, rfl⟩ | contradiction

theorem intercalate_append_pair (sep s t : String) (texts : List String) :
    sep.intercalate (texts ++ [s ++ sep ++ t]) = sep.intercalate (texts ++ [s, t]) := by
  induction texts with
  | nil => simp [String.intercalate_cons_cons]
  | cons text texts ih =>
      cases texts with
      | nil => simp [String.intercalate_cons_cons]
      | cons next texts =>
          simp only [List.cons_append, String.intercalate_cons_cons] at ih ⊢
          rw [ih]

/-- The words of a type without stars, but the body of a struct, each in the spelling of its kind,
are words of the type too. They make up its text. -/
theorem NamesSpecifier.spelled {type : String} {ts : List Word} (h : NamesSpecifier Braced type ts)
    (hcut : ∀ w ∈ ts, w.Cut) :
    ∃ vs, NamesSpecifier (· = []) type vs ∧ type = " ".intercalate (vs.map Prod.snd) ∧
      ∀ v ∈ vs, v.Written ∧ (v.1 = .identifier ∨ ∃ k, v.1 = .keyword k) := by
  obtain ⟨hmodifiers, hbase, hsome⟩ := h
  rename_i modifiers base names
  have hmodifiers' : ∀ v ∈ modifiers.map Word.spelled, v.1.isTypeModifier = true := by
    intro v hv
    obtain ⟨w, hw, rfl⟩ := List.mem_map.mp hv
    exact hmodifiers w hw
  have hwritten : ∀ v ∈ modifiers.map Word.spelled,
      v.Written ∧ (v.1 = .identifier ∨ ∃ k, v.1 = .keyword k) := by
    intro v hv
    obtain ⟨w, hw, rfl⟩ := List.mem_map.mp hv
    obtain ⟨k, hk⟩ := Token.Kind.exists_keyword_of_isTypeModifier (hmodifiers w hw)
    exact ⟨Word.written_spelled hk, .inr ⟨k, hk⟩⟩
  have htexts : (modifiers.map Word.spelled).map Word.spelling = modifiers.map Word.spelling := by
    simp
  have hplain : (modifiers.map Word.spelled).map Prod.snd = modifiers.map Word.spelling := by
    rw [List.map_map]
    rfl
  cases hbase with
  | @base w hw =>
      obtain ⟨k, hk⟩ := Token.Kind.exists_keyword_of_isBaseType hw
      have hbase : NamesBase (· = []) [w.spelled.spelling] [w.spelled] := .base hw
      have hnames := NamesSpecifier.intro hmodifiers' hbase (by simp)
      rw [htexts, Word.spelling_spelled] at hnames
      refine ⟨_, hnames, ?_, ?_⟩
      · rw [List.map_append, hplain]
        rfl
      · rw [List.forall_mem_append]
        exact ⟨hwritten, by simpa using ⟨Word.written_spelled hk, .inr ⟨k, hk⟩⟩⟩
  | @struct key tag body hk htag hbody =>
      have hbase : NamesBase (· = []) ["struct " ++ tag.2] [key.spelled, tag] :=
        .struct hk htag rfl
      have hnames := NamesSpecifier.intro hmodifiers' hbase (by simp)
      rw [htexts] at hnames
      refine ⟨_, hnames, ?_, ?_⟩
      · have hkey : key.spelled.2 = "struct" := by
          rw [Word.spelled, Word.spelling, hk]
          rfl
        rw [List.map_append, hplain, List.map_cons, hkey]
        exact intercalate_append_pair " " "struct" tag.2 _
      · have htag' := hcut tag (by simp) (by simp [htag]) (by simp [htag])
        rw [List.forall_mem_append]
        refine ⟨hwritten, ?_⟩
        simpa using ⟨⟨Word.written_spelled hk, .inr ⟨_, hk⟩⟩, htag', .inl htag⟩
  | absent =>
      have hbase : NamesBase (· = []) [] [] := .absent
      have hnames := NamesSpecifier.intro hmodifiers' hbase (by simpa using hsome)
      rw [htexts] at hnames
      refine ⟨_, hnames, ?_, ?_⟩
      · rw [List.map_append, hplain]
        rfl
      · simpa using hwritten

/-- The text of a type is read as words of the type, before a parenthesis or a star. -/
theorem NamesType.spells {type : String} {ts : List Word} (h : NamesType Braced type ts)
    (hcut : ∀ w ∈ ts, w.Cut) :
    ∃ vs, NamesType (· = []) type vs ∧ ∀ {rest us},
      (∀ c ∈ rest.head?, c = ')' ∨ c = '*') → Spells rest us →
        Spells (type.toList ++ rest) (vs ++ us) := by
  have hwords : continuesWord ')' = false ∧ continuesWord '*' = false := by decide
  induction h with
  | plain h =>
      obtain ⟨vs, hvs, rfl, hvs'⟩ := h.spelled hcut
      refine ⟨vs, .plain hvs, fun hrest hus => ?_⟩
      refine spells_blanks (fun v hv => (hvs' v hv).1) (fun v hv c hc => ?_) hus
      have hk : v.1.runsOn c = continuesWord c := by
        rcases (hvs' v hv).2 with hk | ⟨k, hk⟩
        · rw [hk]
          rfl
        · rw [hk]
          rfl
      rcases hrest c hc with rfl | rfl
      · rw [hk, hwords.1]
      · rw [hk, hwords.2]
  | star _ _ ih =>
      obtain ⟨vs, hvs, hspells⟩ := ih fun v hv => hcut v (List.mem_append_left _ hv)
      refine ⟨vs ++ [operatorWord .star], .star rfl hvs, fun {rest us} hrest hus => ?_⟩
      have hend : (operatorWord .star).1.Ends rest := by
        intro c hc
        rcases hrest c hc with rfl | rfl
        · decide
        · decide
      have hstar : Spells ('*' :: rest) (operatorWord .star :: us) :=
        (operatorWord_written .star).spells hend hus
      have hall := hspells (by simp) hstar
      simpa using hall

/-! ## Literals -/

/-- The text of a finite number is the word of a numeral. -/
theorem Binary64.written_text (r : Nat) :
    Word.Written (.number, (Binary64.finite false r).text) := by
  obtain ⟨c, cs, htext, hc, hcs⟩ := (shortest .upward r).positional_eq_cons
  have hlist : (Binary64.finite false r).text = String.ofList (c :: cs) := by
    simp [Binary64.text, signed, htext]
  rw [hlist]
  refine .number hc fun x hx => ?_
  rcases hcs x hx with hdigit | rfl
  · simp [Token.continuesNumber, hdigit]
  · decide

/-- A text between quotes is the text without the quotes. -/
theorem Grammar.unquoted_quoted {quote : Char} (hquote : quote.toNat < 128) (inner : List Char) :
    unquoted (String.ofList (quote :: (inner ++ [quote]))) = String.ofList inner := by
  simp [unquoted, hquote]

theorem Word.Cut.string {w : Word} (hw : w.Cut) (h : w.1 = .string) :
    ∃ inner, Grammar.unquoted w.2 = String.ofList inner ∧ Token.Lexeme.Inside '"' inner := by
  have hwritten := hw (by simp [h]) (by simp [h])
  cases hwritten with
  | string hinner => exact ⟨_, Grammar.unquoted_quoted (by decide) _, hinner⟩
  | _ => contradiction

theorem Word.Cut.character {w : Word} (hw : w.Cut) (h : w.1 = .character) :
    ∃ inner, Grammar.unquoted w.2 = String.ofList inner ∧ Token.Lexeme.Inside '\'' inner := by
  have hwritten := hw (by simp [h]) (by simp [h])
  cases hwritten with
  | character hinner => exact ⟨_, Grammar.unquoted_quoted (by decide) _, hinner⟩
  | _ => contradiction

/-- Literals that stand next to each other can be one literal. -/
theorem exists_joined {ws : List Word} (hws : ∀ w ∈ ws, w.1 = .string) (hcut : ∀ w ∈ ws, w.Cut) :
    ∃ inner, String.join (ws.map fun w => Grammar.unquoted w.2) = String.ofList inner ∧
      Token.Lexeme.Inside '"' inner := by
  induction ws with
  | nil => exact ⟨[], rfl, .nil _⟩
  | cons w ws ih =>
      obtain ⟨hw, hws⟩ := List.forall_mem_cons.mp hws
      obtain ⟨hcut, hcuts⟩ := List.forall_mem_cons.mp hcut
      obtain ⟨first, hfirst, hinside⟩ := hcut.string hw
      obtain ⟨more, hmore, hrest⟩ := ih hws hcuts
      refine ⟨first ++ more, ?_, hinside.append hrest⟩
      rw [List.map_cons, String.join_cons, hfirst, hmore, String.ofList_append]

end CSurvey
