import CSurvey.Token.Lexeme

/-!
Cutting a lexeme off the front of a text loses nothing, and what it cuts off is not empty. So the
texts of lexemes and the white space between them make up the source, and reading comes to an end.
-/

namespace CSurvey.Token

theorem Operator.spelling_of_ofSpelling? {text : List Char} {o : Operator}
    (h : Operator.ofSpelling? text = some o) : o.spelling.toList = text := by
  simpa using List.find?_some h

theorem Operator.spelling_ne_nil (o : Operator) : o.spelling.toList ≠ [] := by
  cases o <;> decide

theorem continuesWord_of_startsWord {c : Char} (h : startsWord c = true) :
    continuesWord c = true := by
  simp only [startsWord, continuesWord, Text.isAlphanumeric, Bool.or_eq_true] at h ⊢
  exact h.imp .inl id

namespace Lexeme

/-- The text that a lexeme was cut off from. -/
def whole : Lexeme → List Char
  | .piece _ text rest => text ++ rest
  | .flaw _ text rest => text ++ rest

/-! ### Nothing is lost -/

theorem closeComment_append {cs text rest : List Char}
    (h : closeComment cs = some (text, rest)) : text ++ rest = cs := by
  fun_induction closeComment cs generalizing text rest with
  | case1 =>
    obtain ⟨rfl, rfl⟩ := Prod.mk.inj (Option.some.inj h)
    rfl
  | case2 c tail _ ih =>
    obtain ⟨⟨text', rest'⟩, found, made⟩ := Option.map_eq_some_iff.1 h
    obtain ⟨rfl, rfl⟩ := Prod.mk.inj made
    simp [ih found]
  | case3 => simp at h

theorem closeQuote_append (quote : Char) (cs : List Char) :
    (closeQuote quote cs).2.1 ++ (closeQuote quote cs).2.2 = cs := by
  fun_induction closeQuote quote cs <;> simp_all

theorem whole_quoted (quote : Char) (kind : Kind) (flaw : Flaw) (cs : List Char) :
    (quoted quote kind flaw cs).whole = quote :: cs := by
  have h := closeQuote_append quote cs
  unfold quoted
  split <;> simp_all [whole]

theorem whole_blockComment (cs : List Char) :
    (blockComment cs).whole = '/' :: '*' :: cs := by
  unfold blockComment
  split
  · simp [whole, closeComment_append ‹_›]
  · simp [whole]

theorem whole_word (cs : List Char) : (word cs).whole = cs := by
  unfold word
  dsimp only
  split <;> simp [whole]

theorem whole_directive (cs : List Char) : (directive cs).whole = '#' :: cs := by
  unfold directive
  dsimp only
  split <;> simp [whole]

theorem whole_sign (c : Char) (cs : List Char) : (sign c cs).whole = c :: cs := by
  unfold sign
  split
  · rename_i o found
    obtain ⟨n, -, spelt⟩ := List.exists_of_findSome?_eq_some found
    have same := Operator.spelling_of_ofSpelling? spelt
    have fits : o.spelling.toList <+: c :: cs := same ▸ List.take_prefix n (c :: cs)
    obtain ⟨rest, split⟩ := fits
    simp [whole, ← split]
  · split <;> simp [whole]

/-- A lexeme and what follows it are the text it was cut off from. -/
theorem whole_first (c : Char) (cs : List Char) : (first c cs).whole = c :: cs := by
  unfold first
  split
  · simp [whole]
  · exact whole_blockComment _
  · exact whole_quoted _ _ _ _
  · exact whole_quoted _ _ _ _
  · exact whole_directive _
  · split
    · simp [whole]
    · split
      · exact whole_word _
      · exact whole_sign _ _

/-! ### Something is taken -/

theorem quoted_ne_nil {quote : Char} {kind kind' : Kind} {flaw : Flaw} {cs text rest : List Char}
    (h : quoted quote kind flaw cs = .piece kind' text rest) : text ≠ [] := by
  unfold quoted at h
  split at h
  · obtain ⟨-, rfl, -⟩ := Lexeme.piece.inj h
    simp
  · simp at h

theorem blockComment_ne_nil {kind : Kind} {cs text rest : List Char}
    (h : blockComment cs = .piece kind text rest) : text ≠ [] := by
  unfold blockComment at h
  split at h
  · obtain ⟨-, rfl, -⟩ := Lexeme.piece.inj h
    simp
  · simp at h

theorem word_ne_nil {kind : Kind} {c : Char} {cs text rest : List Char}
    (starts : startsWord c = true) (h : word (c :: cs) = .piece kind text rest) : text ≠ [] := by
  have nonempty : (c :: cs).takeWhile continuesWord ≠ [] := by
    simp [continuesWord_of_startsWord starts]
  unfold word at h
  dsimp only at h
  split at h <;> (obtain ⟨-, rfl, -⟩ := Lexeme.piece.inj h; exact nonempty)

theorem directive_ne_nil {kind : Kind} {cs text rest : List Char}
    (h : directive cs = .piece kind text rest) : text ≠ [] := by
  unfold directive at h
  dsimp only at h
  split at h <;> (obtain ⟨-, rfl, -⟩ := Lexeme.piece.inj h; simp)

theorem sign_ne_nil {kind : Kind} {c : Char} {cs text rest : List Char}
    (h : sign c cs = .piece kind text rest) : text ≠ [] := by
  unfold sign at h
  split at h
  · rename_i o _
    obtain ⟨-, rfl, -⟩ := Lexeme.piece.inj h
    exact o.spelling_ne_nil
  · split at h
    · obtain ⟨-, rfl, -⟩ := Lexeme.piece.inj h
      simp
    · simp at h

/-- A piece has at least one character. -/
theorem first_ne_nil {kind : Kind} {c : Char} {cs text rest : List Char}
    (h : first c cs = .piece kind text rest) : text ≠ [] := by
  unfold first at h
  split at h
  · obtain ⟨-, rfl, -⟩ := Lexeme.piece.inj h
    simp
  · exact blockComment_ne_nil h
  · exact quoted_ne_nil h
  · exact quoted_ne_nil h
  · exact directive_ne_nil h
  · split at h
    · obtain ⟨-, rfl, -⟩ := Lexeme.piece.inj h
      simp
    · split at h
      · exact word_ne_nil ‹_› h
      · exact sign_ne_nil h

end Lexeme

end CSurvey.Token
