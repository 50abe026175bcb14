import CSurvey.Proofs.Declaration.Printing
import CSurvey.Proofs.Grammar.NestingCosts

/-! # Texts that nest

The texts of parentheses, rows of operators, calls, signs, blocks and choices of any number, each in
a declaration with another one behind it, and the words that they spell. -/

namespace CSurvey

open Token

/-- The text so many times. -/
def repeated (n : Nat) (text : String) : String :=
  String.join (List.replicate n text)

theorem toList_repeated_succ (n : Nat) (text : String) :
    (repeated (n + 1) text).toList = text.toList ++ (repeated n text).toList := by
  rw [repeated, List.replicate_succ, String.join_cons, String.toList_append, ← repeated]

/-- Names with an operator between each two of them, and so many blanks around each operator. -/
def rowText (blanks : Nat) : Identifier → List (InfixOperator × Identifier) → String
  | x, [] => x.text
  | x, (o, y) :: row =>
    x.text ++ repeated blanks " " ++ o.val.spelling ++ repeated blanks " " ++ rowText blanks y row

/-- A declaration with the value, and the last declaration behind it. -/
def valueSource (value : String) : String :=
  "int x = " ++ value ++ ";\nint y;"

/-- A function with the body, and the last declaration behind it. -/
def bodySource (body : String) : String :=
  "void f() \x7b" ++ body ++ "\x7d\nint y;"

/-- The words of the declaration that stands last. -/
def lastWords : List Word :=
  [(.keyword .intKw, "int"), (.identifier, "y"), delimiterWord .semicolon]

/-! ## Where a name ends -/

section Ends

variable {text rest : List Char}

/-- A name does not go on with a sign. -/
theorem ends_signs (hne : text ≠ []) (h : ∀ c ∈ text, c ∈ "+-*/%=!<>&|^~?()[]\x7b\x7d,;:.".toList) :
    Kind.identifier.Ends (text ++ rest) := by
  obtain ⟨c, cs, rfl⟩ := List.exists_cons_of_ne_nil hne
  intro x hx
  obtain rfl : c = x := by simpa using hx
  exact (signs_plain c (h c (List.mem_cons_self ..))).2.2.1

theorem ends_operator (o : Operator) : Kind.identifier.Ends (o.spelling.toList ++ rest) :=
  ends_signs o.spelling_ne_nil fun c hc => Lexeme.spelling_mem o o.mem_all c hc

theorem ends_delimiter (d : Delimiter) : Kind.identifier.Ends (d.spelling.toList ++ rest) := by
  obtain ⟨hlength, hchars⟩ := Lexeme.delimiter_mem d d.mem_all
  refine ends_signs (List.ne_nil_of_length_eq_add_one hlength) fun c hc => ?_
  exact (Lexeme.delimiter_sign c (hchars c hc).1).1

/-- An operator does not go on with a name. -/
theorem operator_ends_name (o : Operator) (x : Identifier) :
    (Kind.operator o).Ends (x.text.toList ++ rest) := by
  intro c hc
  obtain rfl : x.first = c := by simpa [Identifier.text] using hc
  have hsign : x.first ∉ "+-*/%=!<>&|^~?()[]\x7b\x7d,;:.".toList := by
    intro hmem
    have hplain := (signs_plain _ hmem).2.1
    rw [x.starts] at hplain
    contradiction
  have hcomment : x.first ≠ '/' ∧ x.first ≠ '*' := by
    constructor <;> rintro heq <;> exact hsign (by rw [heq]; decide)
  have hnone : Operator.ofSpelling? (o.spelling.toList ++ [x.first]) = none := by
    rw [Option.eq_none_iff_forall_ne_some]
    intro longer hlonger
    have hspelling := Operator.spelling_of_ofSpelling? hlonger
    exact hsign (Lexeme.spelling_mem longer longer.mem_all _ (by simp [hspelling]))
  simp [Kind.runsOn, hnone, hcomment]

end Ends

/-! ## What the texts spell -/

/-- The text spells the words before any other text. -/
def SpellsAhead (text : String) (ws : List Word) : Prop :=
  ∀ ⦃rest : List Char⦄ ⦃us : List Word⦄, Spells rest us → Spells (text.toList ++ rest) (ws ++ us)

namespace SpellsAhead

variable {a b : String} {ws us : List Word} {w : Word}

theorem append (ha : SpellsAhead a ws) (hb : SpellsAhead b us) :
    SpellsAhead (a ++ b) (ws ++ us) := by
  intro rest vs h
  rw [String.toList_append, List.append_assoc, List.append_assoc]
  exact ha (hb h)

theorem repeated (h : SpellsAhead a ws) (n : Nat) :
    SpellsAhead (repeated n a) (List.replicate n ws).flatten := by
  induction n with
  | zero => exact fun _ _ hrest => hrest
  | succ n ih =>
      intro rest vs hrest
      rw [toList_repeated_succ, List.append_assoc, List.replicate_succ, List.flatten_cons,
        List.append_assoc]
      exact h (ih hrest)

theorem blank : SpellsAhead " " [] :=
  fun _ _ h => .blank (by decide) h

theorem delimiter (d : Delimiter) : SpellsAhead d.spelling [delimiterWord d] :=
  fun _ _ h => (delimiterWord_written d).spells (fun _ _ => rfl) h

/-- A word before a blank. -/
theorem wordBlank (hw : w.Written) : SpellsAhead (w.2 ++ " ") [w] := by
  intro rest us h
  rw [String.toList_append, List.append_assoc]
  exact hw.spells (w.1.ends_separator (.inl rfl) rest) (blank h)

/-- A name before a delimiter. -/
theorem nameMark (x : Identifier) (d : Delimiter) :
    SpellsAhead (x.text ++ d.spelling) [x.word, delimiterWord d] := by
  intro rest us h
  rw [String.toList_append, List.append_assoc]
  exact x.written.spells (ends_delimiter d) (delimiter d h)

/-- A nest whose openers are spelled ahead. -/
theorem nest (h : SpellsAhead a ws) (n : Nat) :
    SpellsAhead (CSurvey.repeated n a ++ CSurvey.repeated n "\x7d") (nestWords ws n) := by
  have hclose := (delimiter .rightBrace).repeated n
  rw [List.flatten_replicate_singleton] at hclose
  exact (h.repeated n).append hclose

theorem choiceOpener (x : Identifier) :
    SpellsAhead ("if (" ++ x.text ++ ") \x7b") (choiceOpener x) := by
  have hif := wordBlank (.keyword .ifKw)
  have htest := (delimiter .leftParen).append (nameMark x .rightParen)
  have hbrace := blank.append (delimiter .leftBrace)
  have htext : "if (" ++ x.text ++ ") \x7b" =
      "if" ++ " " ++ ("(" ++ (x.text ++ ")") ++ (" " ++ "\x7b")) := by
    exact String.toList_inj.mp (by simp)
  rw [htext]
  exact hif.append (htest.append hbrace)

end SpellsAhead

/-! ## Values -/

/-- The text spells the words before a semicolon. -/
def SpellsValue (value : String) (ws : List Word) : Prop :=
  ∀ ⦃rest : List Char⦄ ⦃us : List Word⦄, Spells rest us →
    Spells (value.toList ++ ';' :: rest) (ws ++ delimiterWord .semicolon :: us)

/-- Nothing runs on over what is repeated, nor over the semicolon behind it. -/
theorem ends_repeated {k : Kind} {text : String} {c : Char} {cs rest : List Char}
    (htext : text.toList = c :: cs) (hc : k.runsOn c = false) (n : Nat) :
    k.Ends ((repeated n text).toList ++ ';' :: rest) := by
  cases n with
  | zero => exact k.ends_separator (.inr rfl) rest
  | succ n =>
      intro x hx
      rw [toList_repeated_succ, htext] at hx
      obtain rfl : c = x := by simpa using hx
      exact hc

namespace SpellsValue

/-- A word with what is repeated behind it. -/
theorem repeatedBehind {w : Word} {text : String} {ws : List Word} {c : Char} {cs : List Char}
    (hw : w.Written) (h : SpellsAhead text ws) (htext : text.toList = c :: cs)
    (hc : w.1.runsOn c = false) (n : Nat) :
    SpellsValue (w.2 ++ repeated n text) (w :: (List.replicate n ws).flatten) := by
  intro rest us hrest
  rw [String.toList_append, List.append_assoc]
  exact hw.spells (ends_repeated htext hc n) (h.repeated n (.delimiter .semicolon rfl hrest))

theorem behind {a b : String} {ws us : List Word} (ha : SpellsAhead a ws) (hb : SpellsValue b us) :
    SpellsValue (a ++ b) (ws ++ us) := by
  intro rest vs hrest
  rw [String.toList_append, List.append_assoc, List.append_assoc]
  exact ha (hb hrest)

theorem parens (n : Nat) :
    SpellsValue (repeated n "(" ++ ("1" ++ repeated n ")"))
      (List.replicate n (delimiterWord .leftParen) ++
        (.number, "1") :: List.replicate n (delimiterWord .rightParen)) := by
  have hone : Word.Written (.number, String.ofList ['1']) := .number rfl (by simp)
  have hopen := (SpellsAhead.delimiter .leftParen).repeated n
  have hclose := repeatedBehind hone (.delimiter .rightParen) rfl (by decide) n
  rw [List.flatten_replicate_singleton] at hopen hclose
  exact behind hopen hclose

theorem calls (f : Identifier) (n : Nat) :
    SpellsValue (f.text ++ repeated n "()") (f.word :: callWords n) := by
  have hparen : Kind.identifier.runsOn '(' = false := by decide
  have hcall := (SpellsAhead.delimiter .leftParen).append (.delimiter .rightParen)
  exact repeatedBehind f.written hcall rfl hparen n

theorem signs (a : Identifier) (n : Nat) :
    SpellsValue (repeated n "- " ++ a.text)
      (List.replicate n (operatorWord .minus) ++ [a.word]) := by
  have hsigns := (SpellsAhead.wordBlank (operatorWord_written .minus)).repeated n
  rw [List.flatten_replicate_singleton] at hsigns
  refine behind hsigns fun rest us hrest => ?_
  exact a.written.spells (Kind.ends_separator _ (.inr rfl) rest) (.delimiter .semicolon rfl hrest)

/-- A word before blanks, of which there are none if it does not run on over what is behind them. -/
theorem spells_blanksBehind {w : Word} (hw : w.Written) {rest : List Char} {us : List Word}
    (hrest : w.1.Ends rest) (h : Spells rest us) (n : Nat) :
    Spells (w.2.toList ++ ((repeated n " ").toList ++ rest)) (w :: us) := by
  have hnone : (List.replicate n ([] : List Word)).flatten = [] := by simp
  have hblanks := SpellsAhead.blank.repeated n h
  rw [hnone, List.nil_append] at hblanks
  refine hw.spells ?_ hblanks
  cases n with
  | zero => exact hrest
  | succ n =>
      rw [toList_repeated_succ]
      exact w.1.ends_separator (.inl rfl) _

theorem row (blanks : Nat) (x : Identifier) (row : List (InfixOperator × Identifier)) :
    SpellsValue (rowText blanks x row) (x.word :: rowWords row) := by
  intro rest us hrest
  induction row generalizing x with
  | nil =>
      exact x.written.spells (Kind.ends_separator _ (.inr rfl) rest)
        (.delimiter .semicolon rfl hrest)
  | cons p row ih =>
      obtain ⟨o, y⟩ := p
      have hend : (Kind.operator o.val).Ends ((rowText blanks y row).toList ++ ';' :: rest) := by
        cases row with
        | nil => exact operator_ends_name o.val y
        | cons q row =>
            simp only [rowText, String.toList_append, List.append_assoc]
            exact operator_ends_name o.val y
      have hoperator := spells_blanksBehind (operatorWord_written o.val) hend (ih y) blanks
      have hname := spells_blanksBehind x.written (ends_operator o.val) hoperator blanks
      simp only [rowText, String.toList_append, List.append_assoc]
      exact hname

end SpellsValue

/-! ## Files -/

theorem spells_lastWords : Spells "\nint y;".toList lastWords := by
  have hname := SpellsAhead.nameMark ⟨'y', [], by decide, by simp, by decide⟩ .semicolon
  exact .blank (by decide) ((SpellsAhead.wordBlank (.keyword .intKw)).append hname .nil)

theorem valueSource_spells {value : String} {ws : List Word} (h : SpellsValue value ws) :
    Spells (valueSource value).toList ((.keyword .intKw, "int") :: (.identifier, "x") ::
      operatorWord .assign :: (ws ++ delimiterWord .semicolon :: lastWords)) := by
  have hname : Word.Written (.identifier, String.ofList ['x']) :=
    .identifier (by decide) (by simp) (by decide)
  have hstart := (SpellsAhead.wordBlank (.keyword .intKw)).append
    ((SpellsAhead.wordBlank hname).append (.wordBlank (operatorWord_written .assign)))
  have htext : (valueSource value).toList =
      "int x = ".toList ++ (value.toList ++ ';' :: "\nint y;".toList) := by
    simp [valueSource]
  rw [htext]
  exact hstart (h spells_lastWords)

theorem bodySource_spells {body : String} {ws : List Word} (h : SpellsAhead body ws) :
    Spells (bodySource body).toList ((.keyword .voidKw, "void") :: (.identifier, "f") ::
      delimiterWord .leftParen :: delimiterWord .rightParen :: delimiterWord .leftBrace ::
        (ws ++ delimiterWord .rightBrace :: lastWords)) := by
  have hname := SpellsAhead.nameMark ⟨'f', [], by decide, by simp, by decide⟩ .leftParen
  have hstart := (SpellsAhead.wordBlank (.keyword .voidKw)).append
    (hname.append ((SpellsAhead.delimiter .rightParen).append
      (SpellsAhead.blank.append (.delimiter .leftBrace))))
  have htext : (bodySource body).toList =
      "void f() \x7b".toList ++ (body.toList ++ '\x7d' :: "\nint y;".toList) := by
    simp [bodySource]
  rw [htext]
  exact hstart (h (.delimiter .rightBrace rfl spells_lastWords))

end CSurvey
