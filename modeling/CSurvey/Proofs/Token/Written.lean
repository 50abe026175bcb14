import Mathlib.Data.List.TakeWhile
import Mathlib.Tactic.IntervalCases
import CSurvey.Proofs.Token.Spelling

/-! # Words that are written out

A word that is written before a text is read back from it, unless the lexer would take the first
character of the text along. -/

namespace CSurvey.Token

/-- What is claimed of the members of a list is decided member by member, also where all values of
their type could be tried. -/
local instance (priority := 2000) decidableMembers {α : Type} {p : α → Prop} [DecidablePred p]
    {l : List α} : Decidable (∀ a ∈ l, p a) :=
  List.decidableBAll p l

/-! ## Characters -/

theorem digit_mem {c : Char} (h : c.isDigit = true) : c ∈ "0123456789".toList := by
  simp only [Char.isDigit, Bool.and_eq_true, decide_eq_true_eq] at h
  have hlow : 48 ≤ c.toNat := UInt32.le_iff_toNat_le.mp h.1
  have hhigh : c.toNat ≤ 57 := UInt32.le_iff_toNat_le.mp h.2
  rw [← Char.ofNat_toNat c]
  interval_cases c.toNat <;> decide

theorem digits_plain : ∀ c ∈ "0123456789".toList,
    Text.isBlank c = false ∧ startsWord c = false ∧ continuesWord c = true ∧
      continuesNumber c = true ∧ c ∉ "/\"'#".toList := by
  decide

/-- No sign of an operator or a delimiter belongs to a word or a number, the point apart. -/
theorem signs_plain : ∀ c ∈ "+-*/%=!<>&|^~?()[]\x7b\x7d,;:.".toList,
    Text.isBlank c = false ∧ startsWord c = false ∧ continuesWord c = false ∧
      c.isDigit = false ∧ (continuesNumber c = true → c = '.') ∧ c ∉ "\"'#".toList := by
  decide

/-- No white space opens a word. -/
theorem isBlank_of_startsWord {c : Char} (h : startsWord c = true) : Text.isBlank c = false := by
  have hblanks : ∀ r ∈ Text.blankRanges, ∀ n ∈ List.range' r.1 (r.2 + 1 - r.1),
      startsWord (Char.ofNat n) = false := by
    decide +kernel
  by_contra hblank
  obtain ⟨r, hr, hc⟩ := List.any_eq_true.mp (Bool.eq_true_of_not_eq_false hblank)
  simp only [Bool.and_eq_true, decide_eq_true_eq] at hc
  have hmem : c.toNat ∈ List.range' r.1 (r.2 + 1 - r.1) :=
    List.mem_range'_1.mpr ⟨hc.1, by omega⟩
  have hnone := hblanks r hr _ hmem
  rw [Char.ofNat_toNat, h] at hnone
  simp at hnone

theorem startsWord_ne {c : Char} (h : startsWord c = true) :
    c.isDigit = false ∧ c ∉ "/\"'#".toList := by
  constructor
  · by_contra hdigit
    have hplain := digits_plain c (digit_mem (by simpa using hdigit))
    rw [hplain.2.1] at h
    contradiction
  · have hnone : ∀ c ∈ "/\"'#".toList, startsWord c = false := by decide
    intro hmem
    rw [hnone c hmem] at h
    contradiction

/-- What opens a word in lower case opens one as it is. -/
theorem startsWord_of_lowerCase {c : Char} (h : startsWord (lowerCase c) = true) :
    startsWord c = true := by
  unfold lowerCase at h
  split at h
  · rename_i hkelvin
    subst hkelvin
    decide +kernel
  · by_cases hupper : c.isUpper = true
    · have halpha : c.isAlpha = true := Bool.or_eq_true_iff.mpr (.inl hupper)
      simp [startsWord, Text.isAlphabetic, halpha]
    · have hsame : c.toLower = c := dif_neg fun h => hupper (decide_eq_true h)
      rwa [hsame] at h

/-- Each letter of a keyword could open a word, in whatever letter case it is written. -/
theorem Keyword.letters_of_ofWord? {letters : List Char} {k : Keyword}
    (h : ofWord? letters = some k) : letters ≠ [] ∧ ∀ c ∈ letters, startsWord c = true := by
  have hletters : ∀ k ∈ Keyword.all, k.spelling.toList ≠ [] ∧
      ∀ c ∈ k.spelling.toList, startsWord c = true := by
    decide +kernel
  have hspelling : k.spelling.toList = lowerWord letters := by
    unfold ofWord? at h
    simpa using List.find?_some h
  obtain ⟨hne, hall⟩ := hletters k k.mem_all
  rw [hspelling] at hne hall
  refine ⟨fun hnone => hne (by rw [hnone]; rfl), fun c hc => ?_⟩
  exact startsWord_of_lowerCase (hall _ (List.mem_map_of_mem hc))

theorem Keyword.plain_spelling : ∀ k ∈ Keyword.all, k.spelling.toList ≠ [] ∧
    (∀ x ∈ k.spelling.toList.take 1, Text.isBlank x = false ∧ startsWord x = true) ∧
    (∀ x ∈ k.spelling.toList, continuesWord x = true) ∧
    Keyword.ofWord? k.spelling.toList = some k := by
  decide +kernel

/-! ## What the lexer takes along -/

/-- Whether the lexer would take a character along with a piece of the kind before it. -/
def Kind.runsOn : Kind → Char → Bool
  | .identifier, c | .keyword _, c => continuesWord c
  | .number, c => continuesNumber c
  | .operator o, c =>
    (Operator.ofSpelling? (o.spelling.toList ++ [c])).isSome || (o = .slash && (c = '/' || c = '*'))
  | _, _ => false

/-- Nothing of the text is taken along with a piece of the kind before it. -/
def Kind.Ends (k : Kind) (rest : List Char) : Prop :=
  ∀ c ∈ rest.head?, k.runsOn c = false

namespace Lexeme

/-! ## Words and numbers -/

theorem takeWhile_append {p : Char → Bool} {cs rest : List Char} (hcs : ∀ c ∈ cs, p c = true)
    (hrest : ∀ c ∈ rest.head?, p c = false) :
    (cs ++ rest).takeWhile p = cs ∧ (cs ++ rest).dropWhile p = rest := by
  have htake : rest.takeWhile p = [] ∧ rest.dropWhile p = rest := by
    cases rest with
    | nil => exact ⟨rfl, rfl⟩
    | cons c rest => simp [hrest c rfl]
  rw [List.takeWhile_append_of_pos hcs, List.dropWhile_append_of_pos hcs, htake.1, htake.2,
    List.append_nil]
  exact ⟨rfl, rfl⟩

theorem head?_dropWhile {p : Char → Bool} (cs : List Char) :
    ∀ x ∈ (cs.dropWhile p).head?, p x = false := by
  intro x hx
  have hnot := List.head?_dropWhile_not p cs
  rw [Option.mem_def.mp hx] at hnot
  exact hnot

theorem first_of_startsWord {c : Char} (hc : startsWord c = true) (cs : List Char) :
    first c cs = word (c :: cs) := by
  obtain ⟨hdigit, hmem⟩ := startsWord_ne hc
  unfold first
  split <;> simp_all

theorem first_word {c : Char} {cs rest : List Char} (hc : startsWord c = true)
    (hcs : ∀ x ∈ cs, continuesWord x = true)
    (hrest : ∀ x ∈ rest.head?, continuesWord x = false) :
    first c (cs ++ rest) =
      .piece ((Keyword.ofWord? (c :: cs)).elim .identifier .keyword) (c :: cs) rest := by
  have hall : ∀ x ∈ c :: cs, continuesWord x = true :=
    List.forall_mem_cons.mpr ⟨continuesWord_of_startsWord hc, hcs⟩
  obtain ⟨htake, hdrop⟩ := takeWhile_append hall hrest
  rw [List.cons_append] at htake hdrop
  rw [first_of_startsWord hc, word, htake, hdrop]
  cases Keyword.ofWord? (c :: cs) with
  | none => rfl
  | some k => rfl

theorem first_number {c : Char} {cs rest : List Char} (hc : c.isDigit = true)
    (hcs : ∀ x ∈ cs, continuesNumber x = true)
    (hrest : ∀ x ∈ rest.head?, continuesNumber x = false) :
    first c (cs ++ rest) = .piece .number (c :: cs) rest := by
  obtain ⟨htake, hdrop⟩ := takeWhile_append hcs hrest
  obtain ⟨-, -, -, -, hmem⟩ := digits_plain c (digit_mem hc)
  have hfirst : first c (cs ++ rest) =
      .piece .number (c :: (cs ++ rest).takeWhile continuesNumber)
        ((cs ++ rest).dropWhile continuesNumber) := by
    unfold first
    split <;> simp_all
  rw [hfirst, htake, hdrop]

/-! ## Signs -/

/-- What comes of an operator when its end is cut off is one too. -/
theorem ofSpelling_take : ∀ o ∈ Operator.all, ∀ n ∈ [1, 2, 3],
    (Operator.ofSpelling? (o.spelling.toList.take n)).isSome = true := by
  decide

theorem length_spelling : ∀ o ∈ Operator.all,
    o.spelling.toList.length ∈ [1, 2, 3] ∧ Operator.ofSpelling? o.spelling.toList = some o := by
  decide

/-- What is no operator is none with more behind it. -/
theorem ofSpelling_append {text : List Char} {c : Char} (more : List Char) (hne : text ≠ [])
    (h : Operator.ofSpelling? (text ++ [c]) = none) :
    Operator.ofSpelling? (text ++ c :: more) = none := by
  by_contra hsome
  obtain ⟨o, ho⟩ := Option.ne_none_iff_exists'.mp hsome
  have hspelling := Operator.spelling_of_ofSpelling? ho
  have hpos := List.length_pos_iff.mpr hne
  have hlength := (length_spelling o o.mem_all).1
  rw [hspelling, List.length_append, List.length_cons] at hlength
  have hn : text.length + 1 ∈ [1, 2, 3] := by
    simp only [List.mem_cons, List.not_mem_nil, or_false] at hlength ⊢
    omega
  have htake := ofSpelling_take o o.mem_all _ hn
  have hstart : o.spelling.toList.take (text.length + 1) = text ++ [c] := by
    rw [hspelling, List.take_append, List.take_of_length_le (by omega)]
    simp
  rw [hstart, h] at htake
  contradiction

/-- The longest operator at the front of a text that does not go on with it. -/
theorem operator?_spelling {o : Operator} {rest : List Char}
    (hrest : (Kind.operator o).Ends rest) : operator? (o.spelling.toList ++ rest) = some o := by
  obtain ⟨hlength, hself⟩ := length_spelling o o.mem_all
  have hne := o.spelling_ne_nil
  generalize hsp : o.spelling.toList = text at hlength hself hne
  have hmore : ∀ n, text.length < n → (text ++ rest).take n = text ∨
      Operator.ofSpelling? ((text ++ rest).take n) = none := by
    intro n hn
    cases rest with
    | nil =>
        left
        rw [List.append_nil, List.take_of_length_le (by omega)]
    | cons c rest =>
        right
        have hstop := hrest c rfl
        simp only [Kind.runsOn, hsp, Bool.or_eq_false_iff] at hstop
        rw [List.take_append, List.take_of_length_le (by omega)]
        obtain ⟨m, hm⟩ : ∃ m, n - text.length = m + 1 := ⟨n - text.length - 1, by omega⟩
        rw [hm, List.take_succ_cons]
        exact ofSpelling_append _ hne (by simpa using hstop.1)
  have hexact : (text ++ rest).take text.length = text := List.take_left
  simp only [operator?, List.findSome?_cons, List.findSome?_nil]
  simp only [List.mem_cons, List.not_mem_nil, or_false] at hlength
  rcases hlength with hlength | hlength | hlength
  · rw [hlength] at hexact hmore
    rcases hmore 3 (by omega) with h3 | h3
    · rw [h3, hself]
    · rcases hmore 2 (by omega) with h2 | h2
      · rw [h3, h2, hself]
      · rw [h3, h2, hexact, hself]
  · rw [hlength] at hexact hmore
    rcases hmore 3 (by omega) with h3 | h3
    · rw [h3, hself]
    · rw [h3, hexact, hself]
  · rw [hlength] at hexact
    rw [hexact, hself]

/-- The longest operator is no shorter than another one at the front. -/
theorem le_length_operator? {o : Operator} {cs : List Char} {n : Nat}
    (h : operator? cs = some o) (hn : n ∈ [1, 2, 3]) (hlength : n ≤ cs.length)
    (hother : (Operator.ofSpelling? (cs.take n)).isSome = true) :
    n ≤ o.spelling.toList.length := by
  have hcut : ∀ m, Operator.ofSpelling? (cs.take m) = some o → n ≤ m →
      n ≤ o.spelling.toList.length := by
    intro m hm hle
    rw [Operator.spelling_of_ofSpelling? hm, List.length_take]
    omega
  simp only [operator?, List.findSome?_cons, List.findSome?_nil] at h
  simp only [List.mem_cons, List.not_mem_nil, or_false] at hn
  cases h3 : Operator.ofSpelling? (cs.take 3) with
  | some _ =>
      rw [h3] at h
      exact hcut 3 (h3.trans h) (by omega)
  | none =>
      rw [h3] at h
      have hne3 : n ≠ 3 := by
        rintro rfl
        simp [h3] at hother
      cases h2 : Operator.ofSpelling? (cs.take 2) with
      | some _ =>
          rw [h2] at h
          exact hcut 2 (h2.trans h) (by omega)
      | none =>
          have hne2 : n ≠ 2 := by
            rintro rfl
            simp [h2] at hother
          have hpos := List.length_pos_iff.mpr o.spelling_ne_nil
          omega

/-- A character that opens no comment, literal, directive, number or word stands for a sign. -/
theorem first_eq_sign {c : Char} {cs : List Char} (hc : c ∉ "\"'#".toList)
    (hslash : c = '/' → ∀ x ∈ cs.head?, x ≠ '/' ∧ x ≠ '*') (hdigit : c.isDigit = false)
    (hword : startsWord c = false) : first c cs = sign c cs := by
  unfold first
  split
  · exact absurd rfl (hslash rfl _ rfl).1
  · exact absurd rfl (hslash rfl _ rfl).2
  · simp at hc
  · simp at hc
  · simp at hc
  · simp [hdigit, hword]

theorem spelling_mem : ∀ o ∈ Operator.all, ∀ c ∈ o.spelling.toList,
    c ∈ "+-*/%=!<>&|^~?()[]\x7b\x7d,;:.".toList := by
  decide

theorem first_operator {o : Operator} {c : Char} {cs rest : List Char}
    (ho : o.spelling.toList = c :: cs) (hrest : (Kind.operator o).Ends rest) :
    first c (cs ++ rest) = .piece (.operator o) (c :: cs) rest := by
  have hmem := spelling_mem o o.mem_all c (by simp [ho])
  obtain ⟨-, hword, -, hdigit, -, hplain⟩ := signs_plain c hmem
  have hslash : c = '/' → ∀ x ∈ (cs ++ rest).head?, x ≠ '/' ∧ x ≠ '*' := by
    rintro rfl x hx
    cases cs with
    | nil =>
        have hself := (length_spelling o o.mem_all).2
        rw [ho] at hself
        obtain rfl : Operator.slash = o := by
          have hslash : Operator.ofSpelling? ['/'] = some .slash := by decide
          exact Option.some.inj (hslash.symm.trans hself)
        have hstop := hrest x hx
        simp only [Kind.runsOn, Bool.or_eq_false_iff] at hstop
        simpa using hstop.2
    | cons y ys =>
        obtain rfl : y = x := by simpa using hx
        have hsecond : ∀ o ∈ Operator.all, o.spelling.toList.head? = some '/' →
            ∀ x ∈ (o.spelling.toList.drop 1).take 1, x ≠ '/' ∧ x ≠ '*' := by decide
        exact hsecond o o.mem_all (by simp [ho]) y (by simp [ho])
  have hoperator := operator?_spelling hrest
  rw [ho, List.cons_append] at hoperator
  rw [first_eq_sign hplain hslash hdigit hword, sign, hoperator]
  simp [ho]

theorem delimiter_mem : ∀ d ∈ Delimiter.all, d.spelling.toList.length = 1 ∧
    ∀ c ∈ d.spelling.toList, c ∈ "()[]\x7b\x7d,;:.".toList ∧ Delimiter.ofChar? c = some d := by
  decide

/-- No operator begins like a delimiter. -/
theorem delimiter_plain : ∀ c ∈ "()[]\x7b\x7d,;:.".toList,
    ∀ o ∈ Operator.all, o.spelling.toList.head? ≠ some c := by
  decide

theorem delimiter_sign : ∀ c ∈ "()[]\x7b\x7d,;:.".toList,
    c ∈ "+-*/%=!<>&|^~?()[]\x7b\x7d,;:.".toList ∧ c ≠ '/' := by
  decide

theorem first_delimiter {d : Delimiter} {c : Char} (rest : List Char)
    (hd : d.spelling.toList = [c]) : first c rest = .piece (.delimiter d) [c] rest := by
  obtain ⟨hx, hof⟩ := (delimiter_mem d d.mem_all).2 c (by simp [hd])
  obtain ⟨hmem, hne⟩ := delimiter_sign c hx
  obtain ⟨-, hword, -, hdigit, -, hplain⟩ := signs_plain c hmem
  have hoperator : operator? (c :: rest) = none := by
    by_contra hsome
    obtain ⟨o, ho⟩ := Option.ne_none_iff_exists'.mp hsome
    obtain ⟨n, -, hspelt⟩ := List.exists_of_findSome?_eq_some ho
    have hstart : o.spelling.toList = (c :: rest).take n :=
      Operator.spelling_of_ofSpelling? hspelt
    cases n with
    | zero => exact o.spelling_ne_nil hstart
    | succ n => exact delimiter_plain c hx o o.mem_all (by simp [hstart])
  have hslash : c = '/' → ∀ x ∈ rest.head?, x ≠ '/' ∧ x ≠ '*' := by
    intro h
    exact absurd h hne
  rw [first_eq_sign hplain hslash hdigit hword, sign, hoperator, hof]

/-! ## Literals -/

/-- What may stand between the quotes: the closing quote is looked for behind it. -/
def Inside (quote : Char) (cs : List Char) : Prop :=
  ∀ rest, closeQuote quote (cs ++ rest) =
    ((closeQuote quote rest).1, cs ++ (closeQuote quote rest).2.1, (closeQuote quote rest).2.2)

theorem Inside.nil (quote : Char) : Inside quote [] := fun _ => rfl

theorem Inside.append {quote : Char} {cs ds : List Char} (hcs : Inside quote cs)
    (hds : Inside quote ds) : Inside quote (cs ++ ds) := by
  intro rest
  rw [List.append_assoc, hcs, hds, List.append_assoc]

theorem closeQuote_quote {quote : Char} (hquote : quote ≠ '\n' ∧ quote ≠ '\\')
    (rest : List Char) : closeQuote quote (quote :: rest) = (true, [quote], rest) := by
  unfold closeQuote
  simp [hquote.1, hquote.2]

/-- What was read up to a closing quote stands between quotes. -/
theorem inside_of_closeQuote {quote : Char} {cs text rest : List Char}
    (h : closeQuote quote cs = (true, text, rest)) :
    ∃ inner, text = inner ++ [quote] ∧ Inside quote inner := by
  fun_induction closeQuote quote cs generalizing text rest with
  | case1 => simp at h
  | case2 => simp at h
  | case3 => simp at h
  | case4 => simp at h
  | case5 d tail hd closed found left hx hb ih =>
      obtain ⟨rfl, rfl, rfl⟩ : closed = true ∧ '\\' :: d :: found = text ∧ left = rest := by
        simpa using h
      obtain ⟨inner, rfl, hinner⟩ := ih hx
      refine ⟨'\\' :: d :: inner, rfl, ?_⟩
      intro rest
      have hstep := hinner rest
      rw [List.cons_append, List.cons_append, closeQuote]
      simp_all
  | case6 =>
      obtain ⟨rfl, rfl⟩ := Prod.mk.inj (Prod.mk.inj h).2
      exact ⟨[], rfl, .nil quote⟩
  | case7 c rest' hc hb hq closed found left hx ih =>
      obtain ⟨rfl, rfl, rfl⟩ : closed = true ∧ c :: found = text ∧ left = rest := by
        simpa using h
      obtain ⟨inner, rfl, hinner⟩ := ih hx
      refine ⟨c :: inner, rfl, ?_⟩
      intro rest
      have hstep := hinner rest
      rw [List.cons_append, closeQuote.eq_def]
      simp_all

theorem first_string {inner : List Char} (h : Inside '"' inner) (rest : List Char) :
    first '"' (inner ++ '"' :: rest) = .piece .string ('"' :: (inner ++ ['"'])) rest := by
  show quoted '"' .string .unclosedString (inner ++ '"' :: rest) = _
  rw [quoted, h, closeQuote_quote (by decide)]

theorem first_character {inner : List Char} (h : Inside '\'' inner) (rest : List Char) :
    first '\'' (inner ++ '\'' :: rest) = .piece .character ('\'' :: (inner ++ ['\''])) rest := by
  show quoted '\'' .character .unclosedCharacter (inner ++ '\'' :: rest) = _
  rw [quoted, h, closeQuote_quote (by decide)]

end Lexeme

end CSurvey.Token

namespace CSurvey

open Token

/-- A word whose text reads back as the word. -/
inductive Word.Written : Word → Prop where
  | identifier {c : Char} {cs : List Char} (hc : startsWord c = true)
      (hcs : ∀ x ∈ cs, continuesWord x = true) (hplain : Keyword.ofWord? (c :: cs) = none) :
      Written (.identifier, String.ofList (c :: cs))
  | keyword (k : Keyword) : Written (.keyword k, k.spelling)
  | operator (o : Operator) : Written (.operator o, o.spelling)
  | delimiter (d : Delimiter) : Written (.delimiter d, d.spelling)
  | number {c : Char} {cs : List Char} (hc : c.isDigit = true)
      (hcs : ∀ x ∈ cs, continuesNumber x = true) : Written (.number, String.ofList (c :: cs))
  | string {inner : List Char} (h : Lexeme.Inside '"' inner) :
      Written (.string, String.ofList ('"' :: (inner ++ ['"'])))
  | character {inner : List Char} (h : Lexeme.Inside '\'' inner) :
      Written (.character, String.ofList ('\'' :: (inner ++ ['\''])))

theorem Word.Written.isComment {w : Word} (hw : w.Written) : w.1.isComment = false := by
  cases hw <;> rfl

/-- What is written before a text that does not go on with it is read back. -/
theorem Word.Written.first {w : Word} (hw : w.Written) {rest : List Char} (hrest : w.1.Ends rest) :
    ∃ c cs, w.2.toList = c :: cs ∧ Text.isBlank c = false ∧
      Lexeme.first c (cs ++ rest) = .piece w.1 (c :: cs) rest := by
  cases hw with
  | identifier hc hcs hplain =>
      refine ⟨_, _, String.toList_ofList, isBlank_of_startsWord hc, ?_⟩
      rw [Lexeme.first_word hc hcs hrest, hplain]
      rfl
  | keyword k =>
      obtain ⟨hne, hhead, hall, hword⟩ := k.plain_spelling k.mem_all
      obtain ⟨c, cs, hspelling⟩ := List.exists_cons_of_ne_nil hne
      rw [hspelling] at hhead hall hword
      obtain ⟨hblank, hc⟩ := hhead c (List.mem_cons_self ..)
      refine ⟨c, cs, hspelling, hblank, ?_⟩
      rw [Lexeme.first_word hc (List.forall_mem_cons.mp hall).2 hrest, hword]
      rfl
  | operator o =>
      obtain ⟨c, cs, hspelling⟩ := List.exists_cons_of_ne_nil o.spelling_ne_nil
      have hmem := Lexeme.spelling_mem o o.mem_all c (by simp [hspelling])
      exact ⟨c, cs, hspelling, (signs_plain c hmem).1, Lexeme.first_operator hspelling hrest⟩
  | delimiter d =>
      obtain ⟨hlength, hchars⟩ := Lexeme.delimiter_mem d d.mem_all
      obtain ⟨c, hspelling⟩ := List.length_eq_one_iff.mp hlength
      have hc := (hchars c (by simp [hspelling])).1
      have hblank := (signs_plain c (Lexeme.delimiter_sign c hc).1).1
      exact ⟨c, [], hspelling, hblank, Lexeme.first_delimiter rest hspelling⟩
  | number hc hcs =>
      have hblank := (digits_plain _ (digit_mem hc)).1
      exact ⟨_, _, String.toList_ofList, hblank, Lexeme.first_number hc hcs hrest⟩
  | string h =>
      refine ⟨_, _, String.toList_ofList, by decide, ?_⟩
      rw [List.append_assoc]
      exact Lexeme.first_string h rest
  | character h =>
      refine ⟨_, _, String.toList_ofList, by decide, ?_⟩
      rw [List.append_assoc]
      exact Lexeme.first_character h rest

/-- A word that is written before a text that does not go on with it is the first word spelled. -/
theorem Word.Written.spells {w : Word} (hw : w.Written) {rest : List Char} {ws : List Word}
    (hrest : w.1.Ends rest) (h : Spells rest ws) : Spells (w.2.toList ++ rest) (w :: ws) := by
  obtain ⟨c, cs, htext, hblank, hfirst⟩ := hw.first hrest
  have hword : w = (w.1, String.ofList (c :: cs)) := by
    rw [← htext, String.ofList_toList]
  rw [htext, hword]
  exact .word hblank hfirst hw.isComment h

/-- A word that is spelled first where it is written before a text that does not go on with it. -/
def Word.ReadsBack (w : Word) : Prop :=
  ∀ rest ws, w.1.Ends rest → Spells rest ws → Spells (w.2.toList ++ rest) (w :: ws)

theorem Word.Written.readsBack {w : Word} (hw : w.Written) : w.ReadsBack :=
  fun _ _ hrest h => hw.spells hrest h

/-- A keyword reads back in any letter case. -/
theorem Word.readsBack_keyword {k : Keyword} {letters : List Char}
    (hk : Keyword.ofWord? letters = some k) : ReadsBack (.keyword k, String.ofList letters) := by
  intro rest ws hrest h
  rw [String.toList_ofList]
  obtain ⟨hne, hletters⟩ := Keyword.letters_of_ofWord? hk
  obtain ⟨c, cs, rfl⟩ := List.exists_cons_of_ne_nil hne
  obtain ⟨hc, hcs⟩ := List.forall_mem_cons.mp hletters
  have hfirst : Lexeme.first c (cs ++ rest) = .piece (.keyword k) (c :: cs) rest := by
    rw [Lexeme.first_word hc (fun x hx => continuesWord_of_startsWord (hcs x hx)) hrest, hk]
    rfl
  exact .word (isBlank_of_startsWord hc) hfirst rfl h

/-- The first word that is spelled is the one written first. -/
theorem Word.Written.of_spells {w : Word} (hw : w.Written) {rest : List Char} {ws : List Word}
    (hrest : w.1.Ends rest) (h : Spells (w.2.toList ++ rest) ws) :
    ∃ ws', ws = w :: ws' ∧ Spells rest ws' := by
  obtain ⟨c, cs, htext, hblank, hfirst⟩ := hw.first hrest
  rw [htext] at h
  obtain ⟨ws', rfl, hws'⟩ := Spells.of_first h hblank hfirst hw.isComment
  refine ⟨ws', ?_, hws'⟩
  rw [← htext, String.ofList_toList]

/-- What the lexer cuts off is written as it reads, keywords and directives apart. -/
theorem Word.written_of_first {c : Char} {cs text rest : List Char} {kind : Token.Kind}
    (hblank : Text.isBlank c = false) (h : Lexeme.first c cs = .piece kind text rest)
    (hkeyword : ∀ k, kind ≠ .keyword k) (hdirective : ∀ d, kind ≠ .directive d)
    (hcomment : kind.isComment = false) : Word.Written (kind, String.ofList text) := by
  unfold Lexeme.first at h
  split at h
  · obtain ⟨rfl, -, -⟩ := Lexeme.piece.inj h
    contradiction
  · unfold Lexeme.blockComment at h
    split at h
    · obtain ⟨rfl, -, -⟩ := Lexeme.piece.inj h
      contradiction
    · contradiction
  · unfold Lexeme.quoted at h
    split at h
    · rename_i hclose
      obtain ⟨rfl, rfl, -⟩ := Lexeme.piece.inj h
      obtain ⟨inner, rfl, hinner⟩ := Lexeme.inside_of_closeQuote hclose
      exact .string hinner
    · contradiction
  · unfold Lexeme.quoted at h
    split at h
    · rename_i hclose
      obtain ⟨rfl, rfl, -⟩ := Lexeme.piece.inj h
      obtain ⟨inner, rfl, hinner⟩ := Lexeme.inside_of_closeQuote hclose
      exact .character hinner
    · contradiction
  · unfold Lexeme.directive at h
    dsimp only at h
    split at h
    · obtain ⟨rfl, -, -⟩ := Lexeme.piece.inj h
      exact absurd rfl (hdirective _)
    · obtain ⟨rfl, -, -⟩ := Lexeme.piece.inj h
      exact absurd rfl (hdirective _)
  · split at h
    · rename_i hdigit
      obtain ⟨rfl, rfl, -⟩ := Lexeme.piece.inj h
      exact .number hdigit fun x hx => List.mem_takeWhile_imp hx
    · split at h
      · rename_i hstarts
        have htake : ∀ cs : List Char, (c :: cs).takeWhile continuesWord =
            c :: cs.takeWhile continuesWord := by
          intro cs
          rw [List.takeWhile_cons_of_pos (continuesWord_of_startsWord hstarts)]
        unfold Lexeme.word at h
        dsimp only at h
        split at h
        · obtain ⟨rfl, -, -⟩ := Lexeme.piece.inj h
          exact absurd rfl (hkeyword _)
        · rename_i hnone
          obtain ⟨rfl, rfl, -⟩ := Lexeme.piece.inj h
          rw [htake] at hnone ⊢
          exact .identifier hstarts (fun x hx => List.mem_takeWhile_imp hx) hnone
      · unfold Lexeme.sign at h
        split at h
        · rename_i o _
          obtain ⟨rfl, rfl, -⟩ := Lexeme.piece.inj h
          rw [String.ofList_toList]
          exact .operator o
        · split at h
          · rename_i d hd
            obtain ⟨rfl, rfl, -⟩ := Lexeme.piece.inj h
            have hspelling : d.spelling.toList = [c] := by
              simpa using List.find?_some hd
            rw [← hspelling, String.ofList_toList]
            exact .delimiter d
          · contradiction

/-- What a text spells is written as it reads, keywords and directives apart. -/
theorem Spells.written {cs : List Char} {ws : List Word} (h : Spells cs ws) :
    ∀ w ∈ ws, (∀ k, w.1 ≠ .keyword k) → (∀ d, w.1 ≠ .directive d) → w.Written := by
  induction h with
  | nil => simp
  | blank _ _ ih => exact ih
  | comment _ _ _ _ ih => exact ih
  | word hc hfirst hkind _ ih =>
      intro w hw hkeyword hdirective
      rcases List.mem_cons.mp hw with rfl | hw
      · exact Word.written_of_first hc hfirst hkeyword hdirective hkind
      · exact ih w hw hkeyword hdirective

end CSurvey
