import Mathlib.Data.Bool.AllAny
import CSurvey.Proofs.Token.Reading
import CSurvey.Proofs.Token.Written

/-! # Header names

The lexer knows no header names: it cuts one into words, numbers and signs, and their texts put
together are the name. The bracket that closes it is not taken along if no hyphen stands before
it. -/

namespace CSurvey

namespace Token

/-! ## Characters of header names -/

/-- The letters, digits and signs of header names. -/
def isHeaderCharacter (c : Char) : Bool :=
  c.isAlphanum || c ∈ "_./+-".toList

/-- The end of a header name: it opens no line comment, and its last character makes no arrow of the
bracket behind it. -/
structure IsHeaderText (cs : List Char) : Prop where
  plain : ∀ c ∈ cs, isHeaderCharacter c = true
  uncommented : ¬['/', '/'] <:+: cs
  closed : cs.getLast? ≠ some '-'

theorem IsHeaderText.of_append {text rest : List Char} (h : IsHeaderText (text ++ rest)) :
    IsHeaderText rest where
  plain c hc := h.plain c (List.mem_append_right _ hc)
  uncommented hpart := h.uncommented (hpart.trans (List.suffix_append text rest).isInfix)
  closed hlast := h.closed (by rw [List.getLast?_append, hlast]; rfl)

theorem IsHeaderText.tail {c : Char} {cs : List Char} (h : IsHeaderText (c :: cs)) :
    IsHeaderText cs :=
  have happend : IsHeaderText ([c] ++ cs) := h
  happend.of_append

/-- The kinds of the tokens that header names are cut into. -/
def Kind.isHeaderPart : Kind → Bool
  | .identifier | .keyword _ | .number | .delimiter .dot => true
  | .operator o => o ∈ [.plus, .minus, .slash, .increment, .decrement]
  | _ => false

/-- A part of a header name is stepped over nowhere, and ends no header name. -/
theorem Kind.isHeaderPart_counts {k : Kind} (h : k.isHeaderPart = true) :
    k.isComment = false ∧ k ≠ .newline ∧ k ≠ .endOfInput ∧ k ≠ .operator .greater := by
  have hall : ∀ k ∈ Kind.all, k.isHeaderPart = true →
      k.isComment = false ∧ k ≠ .newline ∧ k ≠ .endOfInput ∧ k ≠ .operator .greater := by
    decide +kernel
  exact hall k k.mem_all h

/-! ## What runs on -/

/-- Operators run on over signs only. -/
theorem Operator.mem_of_runsOn {o : Operator} {c : Char} (h : (Kind.operator o).runsOn c = true) :
    c ∈ "+-*/%=!<>&|^~?".toList := by
  have hmem : ∀ o ∈ Operator.all, o.spelling.toList ⊆ "+-*/%=!<>&|^~?".toList := by decide
  simp only [Kind.runsOn, Bool.or_eq_true] at h
  rcases h with h | h
  · obtain ⟨longer, hlonger⟩ := Option.isSome_iff_exists.mp h
    have hspelling := Operator.spelling_of_ofSpelling? hlonger
    exact hmem longer longer.mem_all (by simp [hspelling])
  · obtain ⟨-, rfl | rfl⟩ : o = .slash ∧ (c = '/' ∨ c = '*') := by simpa using h
    · decide
    · decide

/-- Over a character of a header name, or the bracket behind it, an operator runs on only if it is
one of four. -/
theorem Operator.runsOn_header {o : Operator} {c : Char}
    (hc : isHeaderCharacter c = true ∨ c = '>')
    (ho : ∀ x ∈ "+-/>".toList, (Kind.operator o).runsOn x = true → x ≠ c) :
    (Kind.operator o).runsOn c = false := by
  have hsigns : ∀ x ∈ "+-*/%=!<>&|^~?".toList, isHeaderCharacter x = true ∨ x = '>' →
      x ∈ "+-/>".toList :=
    List.all_iff_forall_prop.mp (by decide)
  by_contra h
  have hruns : (Kind.operator o).runsOn c = true := by simpa using h
  exact ho c (hsigns c (Operator.mem_of_runsOn hruns) hc) hruns rfl

namespace Lexeme

variable {c : Char} {cs more : List Char}

/-- What is left of a text behind the characters that a piece takes does not go on with one. -/
theorem head?_left {p : Char → Bool} (cs more : List Char) (hp : p '>' = false) :
    ∀ x ∈ (cs.dropWhile p ++ '>' :: more).head?, p x = false := by
  intro x hx
  cases hdrop : cs.dropWhile p with
  | nil =>
      rw [hdrop] at hx
      obtain rfl : '>' = x := by simpa using hx
      exact hp
  | cons y ys =>
      rw [hdrop] at hx
      exact head?_dropWhile cs x (by rw [hdrop]; exact hx)

theorem takeWhile_dropWhile_bracket (p : Char → Bool) :
    cs.takeWhile p ++ (cs.dropWhile p ++ '>' :: more) = cs ++ '>' :: more := by
  rw [← List.append_assoc, List.takeWhile_append_dropWhile]

theorem first_headerNumber (hdigit : c.isDigit = true) :
    first c (cs ++ '>' :: more) = .piece .number (c :: cs.takeWhile continuesNumber)
      (cs.dropWhile continuesNumber ++ '>' :: more) := by
  rw [← takeWhile_dropWhile_bracket continuesNumber]
  exact first_number hdigit (fun x hx => List.mem_takeWhile_imp hx) (head?_left cs more rfl)

theorem first_headerWord (hword : startsWord c = true) :
    ∃ kind : Kind, kind.isHeaderPart = true ∧
      first c (cs ++ '>' :: more) = .piece kind (c :: cs.takeWhile continuesWord)
        (cs.dropWhile continuesWord ++ '>' :: more) := by
  have hall : ∀ x ∈ cs.takeWhile continuesWord, continuesWord x = true :=
    fun x hx => List.mem_takeWhile_imp hx
  have hfirst := first_word hword hall (head?_left cs more (by decide))
  rw [takeWhile_dropWhile_bracket] at hfirst
  refine ⟨_, ?_, hfirst⟩
  cases Keyword.ofWord? (c :: cs.takeWhile continuesWord) <;> rfl

/-- An operator is cut off a header name if neither the name nor the bracket goes on with it. -/
theorem first_headerOperator (o : Operator) (tail : List Char) (h : IsHeaderText cs)
    (ho : o.spelling.toList = c :: tail)
    (hnext : ∀ y ∈ "+-/>".toList, (Kind.operator o).runsOn y = true →
      (cs ++ '>' :: more).head? ≠ some y) :
    first c (tail ++ (cs ++ '>' :: more)) =
      .piece (.operator o) (c :: tail) (cs ++ '>' :: more) := by
  refine first_operator ho fun x hx => Operator.runsOn_header ?_ fun y hy hruns => ?_
  · cases cs with
    | nil => exact .inr (by simpa using hx.symm)
    | cons d ds =>
        obtain rfl : d = x := by simpa using hx
        exact .inl (h.plain d (by simp))
  · rintro rfl
    exact hnext y hy hruns hx

theorem first_headerOperator_alone (o : Operator) (tail : List Char) (h : IsHeaderText cs)
    (ho : o.spelling.toList = c :: tail)
    (hnone : ∀ y ∈ "+-/>".toList, (Kind.operator o).runsOn y = false) :
    first c (tail ++ (cs ++ '>' :: more)) =
      .piece (.operator o) (c :: tail) (cs ++ '>' :: more) :=
  first_headerOperator o tail h ho fun y hy hruns =>
    absurd hruns (Bool.eq_false_iff.mp (hnone y hy))

/-- The lexer cuts a sign off a header name that starts with one. A second sign is taken along only
if it doubles the first. -/
theorem first_headerSign (h : IsHeaderText (c :: cs)) (hsign : c ∈ "./+-".toList) :
    ∃ kind text rest, text ++ rest = c :: cs ∧ kind.isHeaderPart = true ∧
      first c (cs ++ '>' :: more) = .piece kind text (rest ++ '>' :: more) := by
  have hcs : IsHeaderText cs := h.tail
  have hhead : ∀ y, (cs ++ '>' :: more).head? = some y → cs.head? = some y ∨ cs = [] ∧ y = '>' := by
    intro y hy
    cases cs with
    | nil => exact .inr ⟨rfl, by simpa using hy.symm⟩
    | cons d ds => exact .inl hy
  obtain rfl | rfl | rfl | rfl : c = '.' ∨ c = '/' ∨ c = '+' ∨ c = '-' := by simpa using hsign
  · exact ⟨.delimiter .dot, ['.'], cs, rfl, rfl, first_delimiter _ rfl⟩
  · have hruns : ∀ y ∈ "+-/>".toList, (Kind.operator .slash).runsOn y = true → y = '/' :=
      List.all_iff_forall_prop.mp (by decide)
    refine ⟨.operator .slash, ['/'], cs, rfl, rfl, first_headerOperator .slash [] hcs rfl ?_⟩
    rintro y hy hruns' hnext
    obtain rfl := hruns y hy hruns'
    rcases hhead _ hnext with hnext | ⟨-, hnext⟩
    · obtain ⟨ds, rfl⟩ := List.head?_eq_some_iff.mp hnext
      exact h.uncommented ⟨[], ds, rfl⟩
    · exact absurd hnext (by decide)
  · by_cases hdouble : cs.head? = some '+'
    · obtain ⟨ds, rfl⟩ := List.head?_eq_some_iff.mp hdouble
      exact ⟨.operator .increment, ['+', '+'], ds, rfl, rfl,
        first_headerOperator_alone .increment ['+'] hcs.tail rfl
          (List.all_iff_forall_prop.mp (by decide))⟩
    · have hruns : ∀ y ∈ "+-/>".toList, (Kind.operator .plus).runsOn y = true → y = '+' :=
        List.all_iff_forall_prop.mp (by decide)
      refine ⟨.operator .plus, ['+'], cs, rfl, rfl, first_headerOperator .plus [] hcs rfl ?_⟩
      rintro y hy hruns' hnext
      obtain rfl := hruns y hy hruns'
      rcases hhead _ hnext with hnext | ⟨-, hnext⟩
      · exact hdouble hnext
      · exact absurd hnext (by decide)
  · by_cases hdouble : cs.head? = some '-'
    · obtain ⟨ds, rfl⟩ := List.head?_eq_some_iff.mp hdouble
      exact ⟨.operator .decrement, ['-', '-'], ds, rfl, rfl,
        first_headerOperator_alone .decrement ['-'] hcs.tail rfl
          (List.all_iff_forall_prop.mp (by decide))⟩
    · have hruns : ∀ y ∈ "+-/>".toList, (Kind.operator .minus).runsOn y = true →
          y = '-' ∨ y = '>' :=
        List.all_iff_forall_prop.mp (by decide)
      refine ⟨.operator .minus, ['-'], cs, rfl, rfl, first_headerOperator .minus [] hcs rfl ?_⟩
      rintro y hy hruns' hnext
      rcases hhead _ hnext with hnext | ⟨rfl, -⟩
      · obtain ⟨ds, rfl⟩ := List.head?_eq_some_iff.mp hnext
        rcases hruns y hy hruns' with rfl | rfl
        · exact hdouble hnext
        · exact absurd (hcs.plain '>' (by simp)) (by decide)
      · exact h.closed rfl

/-- The lexer cuts a part off a header name before its bracket, and leaves the rest of the name. -/
theorem first_header (h : IsHeaderText (c :: cs)) (more : List Char) :
    ∃ kind text rest, text ++ rest = c :: cs ∧ kind.isHeaderPart = true ∧
      Text.isBlank c = false ∧
      first c (cs ++ '>' :: more) = .piece kind text (rest ++ '>' :: more) := by
  by_cases hdigit : c.isDigit = true
  · refine ⟨.number, _, _, ?_, rfl, (digits_plain c (digit_mem hdigit)).1,
      first_headerNumber hdigit⟩
    rw [List.cons_append, List.takeWhile_append_dropWhile]
  · by_cases hword : startsWord c = true
    · obtain ⟨kind, hkind, hfirst⟩ := first_headerWord hword
      refine ⟨kind, _, _, ?_, hkind, isBlank_of_startsWord hword, hfirst⟩
      rw [List.cons_append, List.takeWhile_append_dropWhile]
    · have hsign : c ∈ "./+-".toList := by
        have hplain := h.plain c (List.mem_cons_self ..)
        simp only [isHeaderCharacter, Char.isAlphanum, startsWord, Text.isAlphabetic]
          at hplain hword
        simp_all
      obtain ⟨kind, text, rest, hsplit, hkind, hfirst⟩ := first_headerSign h hsign
      have hblank : ∀ c ∈ "./+-".toList, Text.isBlank c = false :=
        List.all_iff_forall_prop.mp (by decide)
      exact ⟨kind, text, rest, hsplit, hkind, hblank c hsign, hfirst⟩

end Lexeme

end Token

/-- A header name before its bracket comes to parts whose texts put together are the name. -/
theorem Cursor.Reads.header {name more : List Char} {l : Position} {ts : List Token}
    (hname : Token.IsHeaderText name) (h : Reads ⟨'>' :: more, l.after name⟩ ts) :
    ∃ parts : List Token, Reads ⟨name ++ '>' :: more, l⟩ (parts ++ ts) ∧
      (∀ t ∈ parts, t.kind.isHeaderPart = true) ∧ String.join (parts.map Token.text) =
        String.ofList name := by
  induction hn : name.length using Nat.strong_induction_on generalizing name l with
  | _ n ih =>
      subst hn
      cases name with
      | nil => exact ⟨[], h, by simp, rfl⟩
      | cons c cs =>
          obtain ⟨kind, text, rest, hsplit, hkind, hblank, hfirst⟩ :=
            Token.Lexeme.first_header hname more
          have hshort : rest.length < (c :: cs).length := by
            have hlength := congrArg List.length hsplit
            have hpos := List.length_pos_iff.mpr (Token.Lexeme.first_ne_nil hfirst)
            rw [List.length_append] at hlength
            omega
          rw [← hsplit] at hname h
          rw [Position.after_append] at h
          obtain ⟨parts, hparts, hkinds, htexts⟩ := ih _ hshort hname.of_append h rfl
          refine ⟨⟨kind, String.ofList text, l⟩ :: parts, .piece hblank hfirst hparts, ?_, ?_⟩
          · exact List.forall_mem_cons.mpr ⟨hkind, hkinds⟩
          · rw [List.map_cons, ← hsplit, String.ofList_append, ← htexts]
            rw [String.join_cons]

/-- The tokens of a line that includes a header. -/
theorem tokenize_header {name : String} (hname : Token.IsHeaderText name.toList) :
    ∃ (less : Position) (parts : List Token) (greater last : Position),
      tokenize ("#include <" ++ name ++ ">") =
        .ok (⟨.directive .inclusion, "#include", .start⟩ :: ⟨.operator .less, "<", less⟩ ::
          (parts ++ [⟨.operator .greater, ">", greater⟩, .endOfInput last])) ∧
      (∀ t ∈ parts, t.kind.isHeaderPart = true) ∧
      String.join (parts.map Token.text) = name := by
  have hmarker : Token.Lexeme.first '#' ("include <".toList ++ (name.toList ++ ['>'])) =
      .piece (.directive .inclusion) "#include".toList
        (" <".toList ++ (name.toList ++ ['>'])) := rfl
  have hless : Token.Lexeme.first '<' (name.toList ++ ['>']) =
      .piece (.operator .less) ['<'] (name.toList ++ ['>']) :=
    Token.Lexeme.first_headerOperator_alone .less [] hname rfl
      (List.all_iff_forall_prop.mp (by decide))
  have hend : Cursor.Reads ⟨['>'], (Position.mk 1 11).after name.toList⟩
      [⟨.operator .greater, ">", (Position.mk 1 11).after name.toList⟩,
        .endOfInput (((Position.mk 1 11).after name.toList).after ['>'])] :=
    .piece rfl rfl (.finished _)
  obtain ⟨parts, hparts, hkinds, htexts⟩ := hend.header hname
  have hsource : Cursor.ofSource ("#include <" ++ name ++ ">") =
      ⟨'#' :: ("include <".toList ++ (name.toList ++ ['>'])), .start⟩ := by
    simp [Cursor.ofSource]
  have hreads : Cursor.Reads ⟨'#' :: ("include <".toList ++ (name.toList ++ ['>'])), .start⟩ _ :=
    .piece (by decide) hmarker (.blank (by decide) (.piece (by decide) hless hparts))
  rw [← hsource] at hreads
  rw [String.ofList_toList] at htexts
  exact ⟨_, parts, _, _, tokenize_eq_ok_iff.mpr hreads, hkinds, htexts⟩

end CSurvey
