import CSurvey.Proofs.Expression.Completeness
import CSurvey.Proofs.Token.Written

/-! # Expressions that are written out

Trees over names, operators, casts, calls and members, written with blanks between their words and
with the parentheses that the table of precedence asks for. The text of a tree is read as the tree
again. -/

namespace CSurvey

open Token (startsWord continuesWord)

/-! ## Trees -/

/-- A name: a word that is no keyword. -/
structure Identifier where
  first : Char
  more : List Char
  starts : startsWord first = true
  continues : ∀ c ∈ more, continuesWord c = true
  plain : Token.Keyword.ofWord? (first :: more) = none

/-- The text of a name. -/
def Identifier.text (x : Identifier) : String :=
  String.ofList (x.first :: x.more)

/-- An operator with two operands, of some level. -/
abbrev BinaryOperator := { o : Token.Operator // o.level.isSome = true }

/-- The level of an operator with two operands. -/
def BinaryOperator.level (o : BinaryOperator) : Nat :=
  o.val.level.get o.property

/-- An operator that stores into its left operand. -/
abbrev AssignmentOperator := { o : Token.Operator // o.isAssignment = true }

/-- An operator that stands before an operand of any form. -/
abbrev Sign := { o : Token.Operator // o.isSign = true }

/-- An operator that adds or takes one. -/
abbrev UpdateOperator := { o : Token.Operator // o.isUpdate = true }

/-- A word that names a type by itself. -/
abbrev BaseType := { k : Token.Keyword // (Token.Kind.keyword k).isBaseType = true }

/-- An expression, apart from the places and the parentheses of its text. -/
inductive Term where
  | name (x : Identifier)
  | index (a i : Term)
  | call (f : Term) (given : List Term)
  | member (a : Term) (x : Identifier)
  | pointerMember (a : Term) (x : Identifier)
  | update (a : Term) (op : UpdateOperator)
  | signed (op : Sign) (a : Term)
  | updated (op : UpdateOperator) (a : Term)
  | cast (base : BaseType) (stars : Nat) (a : Term)
  | binary (op : BinaryOperator) (a b : Term)
  | conditional (a b c : Term)
  | assignment (op : AssignmentOperator) (a b : Term)

namespace Term

mutual

/-- The syntax tree of an expression, without places. -/
def node : Term → Node
  | name x => .texted .identifier x.text .start []
  | index a i => .texted .index "[]" .start [a.node, i.node]
  | call f given => .texted .call "()" .start (f.node :: nodes given)
  | member a x => .texted .member "." .start [a.node, .texted .identifier x.text .start []]
  | pointerMember a x =>
    .texted .pointerMember "->" .start [a.node, .texted .identifier x.text .start []]
  | update a op => .texted .update op.val.spelling .start [a.node]
  | signed op a => .texted .unary op.val.spelling .start [a.node]
  | updated op a => .texted .unary op.val.spelling .start [a.node]
  | cast base stars a =>
    .texted .cast (base.val.spelling ++ String.ofList (List.replicate stars '*')) .start [a.node]
  | binary op a b => .texted .binary op.val.spelling .start [a.node, b.node]
  | conditional a b c => .texted .conditional "?:" .start [a.node, b.node, c.node]
  | assignment op a b => .texted .assignment op.val.spelling .start [a.node, b.node]

/-- The syntax trees of several expressions. -/
def nodes : List Term → List Node
  | [] => []
  | a :: as => a.node :: nodes as

end

/-- The tier of the table of precedence that an expression is made at. -/
def tier : Term → Tier
  | name _ => .primary
  | index _ _ | call _ _ | member _ _ | pointerMember _ _ | update _ _ => .operand
  | signed _ _ | updated _ _ | cast _ _ _ => .unary
  | binary op _ _ => .binary op.level
  | conditional _ _ _ => .conditional
  | assignment _ _ _ => .expression

end Term

/-! ## Words -/

/-- Whether the table of precedence lets a construct of the inner tier stand for one of the outer
tier as it is. -/
def Tier.covers : Tier → Tier → Bool
  | .expression, _ => true
  | .conditional, inner => inner ≠ .expression
  | .binary _, .expression | .binary _, .conditional => false
  | .binary level, .binary inner => inner ≤ level
  | .binary _, _ => true
  | .unary, inner => inner = .unary || inner = .operand || inner = .primary
  | .operand, inner => inner = .operand || inner = .primary
  | .primary, inner => inner = .primary

/-- The word of an operator. -/
def operatorWord (o : Token.Operator) : Word := (.operator o, o.spelling)

/-- The word of a delimiter. -/
def delimiterWord (d : Token.Delimiter) : Word := (.delimiter d, d.spelling)

/-- The words between parentheses. -/
def parenthesized (ws : List Word) : List Word :=
  delimiterWord .leftParen :: (ws ++ [delimiterWord .rightParen])

/-- The words of a construct of the inner tier where one of the outer tier is asked for. -/
def enclosed (outer inner : Tier) (ws : List Word) : List Word :=
  if outer.covers inner then ws else parenthesized ws

/-- The lists, one after the other, with a comma between them. -/
def commaJoined : List (List Word) → List Word
  | [] => []
  | [ws] => ws
  | ws :: vs :: rest => ws ++ delimiterWord .comma :: commaJoined (vs :: rest)

namespace Term

mutual

/-- The words that an expression is written with. -/
def words : Term → List Word
  | name x => [(.identifier, x.text)]
  | index a i =>
    enclosed .operand a.tier a.words ++
      delimiterWord .leftBracket :: (i.words ++ [delimiterWord .rightBracket])
  | call f given =>
    enclosed .operand f.tier f.words ++ parenthesized (commaJoined (wordsAll given))
  | member a x =>
    enclosed .operand a.tier a.words ++ [delimiterWord .dot, (.identifier, x.text)]
  | pointerMember a x =>
    enclosed .operand a.tier a.words ++ [operatorWord .arrow, (.identifier, x.text)]
  | update a op => enclosed .operand a.tier a.words ++ [operatorWord op.val]
  | signed op a => operatorWord op.val :: enclosed .unary a.tier a.words
  | updated op a => operatorWord op.val :: enclosed .operand a.tier a.words
  | cast base stars a =>
    parenthesized ((.keyword base.val, base.val.spelling) ::
      List.replicate stars (operatorWord .star)) ++ enclosed .unary a.tier a.words
  | binary op a b =>
    enclosed (.binary op.level) a.tier a.words ++
      operatorWord op.val :: enclosed (.binary (op.level - 1)) b.tier b.words
  | conditional a b c =>
    enclosed (.binary 10) a.tier a.words ++ operatorWord .question ::
      (b.words ++ delimiterWord .colon :: enclosed .conditional c.tier c.words)
  | assignment op a b =>
    enclosed .conditional a.tier a.words ++ operatorWord op.val :: b.words

/-- The words of several expressions. -/
def wordsAll : List Term → List (List Word)
  | [] => []
  | a :: as => a.words :: wordsAll as

end

/-- The text of an expression: its words with blanks between them. -/
def text (a : Term) : String :=
  " ".intercalate (a.words.map Prod.snd)

end Term

/-! ## Words that are derived -/

/-- No operator with two operands is looser than level ten. -/
def Tier.Known (tier : Tier) : Prop :=
  ∀ level, tier = .binary level → level ≤ 10

theorem Token.Operator.level_bounds {o : Token.Operator} {level : Nat} (h : o.level = some level) :
    1 ≤ level ∧ level ≤ 10 := by
  cases o <;> simp only [Token.Operator.level, Option.some.injEq, reduceCtorEq] at h <;> omega

theorem BinaryOperator.level_eq (op : BinaryOperator) : op.val.level = some op.level :=
  (Option.some_get op.property).symm

theorem Term.tier_known (a : Term) : a.tier.Known := by
  intro level h
  cases a with
  | binary op =>
      obtain rfl := Tier.binary.inj h
      exact (Token.Operator.level_bounds op.level_eq).2
  | _ => contradiction

namespace Derives

variable {Names : String → List Word → Prop} {t : Node} {ws : List Word} {outer inner : Tier}

theorem toUnary (h : Derives Names inner t ws) (hc : Tier.unary.covers inner = true) :
    Derives Names .unary t ws := by
  cases inner with
  | primary => exact .ofOperand (.ofPrimary h)
  | operand => exact .ofOperand h
  | unary => exact h
  | _ => simp [Tier.covers] at hc

theorem ofLooser {level low : Nat} (h : Derives Names (.binary low) t ws) (hlow : low ≤ level) :
    Derives Names (.binary level) t ws := by
  induction level with
  | zero =>
      obtain rfl := Nat.le_zero.mp hlow
      exact h
  | succ level ih =>
      rcases Nat.le_succ_iff.mp hlow with hlow | rfl
      · exact .ofTighter (ih hlow)
      · exact h

theorem toBinary {level : Nat} (h : Derives Names inner t ws)
    (hc : (Tier.binary level).covers inner = true) : Derives Names (.binary level) t ws := by
  cases inner with
  | binary low => exact h.ofLooser (of_decide_eq_true hc)
  | conditional => simp [Tier.covers] at hc
  | expression => simp [Tier.covers] at hc
  | _ => exact (ofUnary (h.toUnary rfl)).ofLooser (Nat.zero_le _)

theorem toConditional (h : Derives Names inner t ws) (hk : inner.Known)
    (hc : Tier.conditional.covers inner = true) : Derives Names .conditional t ws := by
  cases inner with
  | conditional => exact h
  | expression => simp [Tier.covers] at hc
  | binary level => exact .ofBinary (h.toBinary (decide_eq_true (hk level rfl)))
  | _ => exact .ofBinary (h.toBinary rfl)

theorem toExpression (h : Derives Names inner t ws) (hk : inner.Known) :
    Derives Names .expression t ws := by
  by_cases hc : inner = .expression
  · rw [← hc]
    exact h
  · exact .ofConditional (h.toConditional hk (by simp [Tier.covers, hc]))

/-- What a tier covers is derived at it. -/
theorem widen (h : Derives Names inner t ws) (hk : inner.Known)
    (hc : outer.covers inner = true) : Derives Names outer t ws := by
  cases outer with
  | primary =>
      obtain rfl : inner = .primary := of_decide_eq_true hc
      exact h
  | operand =>
      cases inner with
      | primary => exact .ofPrimary h
      | operand => exact h
      | _ => simp [Tier.covers] at hc
  | unary => exact h.toUnary hc
  | binary level => exact h.toBinary hc
  | conditional => exact h.toConditional hk hc
  | expression => exact h.toExpression hk

/-- With the parentheses that the table asks for, an expression is derived at any tier. -/
theorem enclosed (h : Derives Names inner t ws) (hk : inner.Known) (outer : Tier) :
    Derives Names outer t (enclosed outer inner ws) := by
  by_cases hc : outer.covers inner = true
  · rw [CSurvey.enclosed, if_pos hc]
    exact h.widen hk hc
  · rw [CSurvey.enclosed, if_neg hc]
    have hparens : Derives Names .primary t (parenthesized ws) :=
      .parens rfl rfl (h.toExpression hk)
    exact hparens.widen nofun (by cases outer <;> rfl)

end Derives

theorem separated_commaJoined (lists : List (List Word)) :
    Separated lists (commaJoined lists) := by
  induction lists with
  | nil => exact .none
  | cons ws rest ih =>
      cases rest with
      | nil => exact .one ws
      | cons vs rest => exact .more rfl ih

/-- The words of a cast name its type. -/
theorem namesType_cast (base : BaseType) (stars : Nat) :
    NamesType (· = []) (base.val.spelling ++ String.ofList (List.replicate stars '*'))
      ((.keyword base.val, base.val.spelling) ::
        List.replicate stars (operatorWord .star)) := by
  induction stars with
  | zero =>
      have hbase : NamesBase (· = []) [base.val.spelling]
          [(.keyword base.val, base.val.spelling)] :=
        .base (w := (.keyword base.val, base.val.spelling)) base.property
      have hnone : ∀ w ∈ ([] : List Word), w.1.isTypeModifier = true := by simp
      have hplain := NamesSpecifier.intro hnone hbase (by simp)
      simpa using NamesType.plain hplain
  | succ stars ih =>
      have hstar := NamesType.star (w := operatorWord .star) rfl ih
      rw [List.replicate_succ', List.replicate_succ', String.ofList_append, ← String.append_assoc]
      exact hstar

namespace Term

mutual

/-- The words of an expression derive its syntax tree. -/
theorem derives : (a : Term) → Derives (NamesType (· = [])) a.tier a.node a.words
  | name x => .identifier (w := (.identifier, x.text)) rfl
  | index a i =>
    .index rfl rfl (a.derives.enclosed a.tier_known .operand) (i.derives.toExpression i.tier_known)
  | call f given => by
    obtain ⟨pairs, hnodes, hwords, hall⟩ := derivesAll given
    have hgiven : Separated (pairs.map Prod.snd) (commaJoined (wordsAll given)) := by
      rw [hwords]
      exact separated_commaJoined _
    rw [node, words, ← hnodes]
    exact .call rfl rfl hgiven (f.derives.enclosed f.tier_known .operand) hall
  | member a x => by
    have hname : ((.identifier, x.text) : Word).1 = .identifier := rfl
    have hdot : (delimiterWord .dot).1 = .delimiter .dot := rfl
    rw [node, words]
    exact .member hdot hname (a.derives.enclosed a.tier_known .operand)
  | pointerMember a x => by
    have hname : ((.identifier, x.text) : Word).1 = .identifier := rfl
    have harrow : (operatorWord .arrow).1 = .operator .arrow := rfl
    rw [node, words]
    exact .pointerMember harrow hname (a.derives.enclosed a.tier_known .operand)
  | update a op => by
    rw [node, words]
    exact .update (o := operatorWord op.val) rfl op.property
      (a.derives.enclosed a.tier_known .operand)
  | signed op a => by
    rw [node, words]
    exact .signed (o := operatorWord op.val) rfl op.property
      (a.derives.enclosed a.tier_known .unary)
  | updated op a => by
    rw [node, words]
    exact .updated (o := operatorWord op.val) rfl op.property
      (a.derives.enclosed a.tier_known .operand)
  | cast base stars a => by
    have hcast := Derives.cast (o := delimiterWord .leftParen) (c := delimiterWord .rightParen) rfl
      rfl (namesType_cast base stars) (a.derives.enclosed a.tier_known .unary)
    simpa [tier, node, words, parenthesized] using hcast
  | binary op a b => by
    obtain ⟨level, hlevel⟩ : ∃ level, op.level = level + 1 :=
      ⟨op.level - 1, by have := Token.Operator.level_bounds op.level_eq; omega⟩
    have hop : Grammar.isOfLevel (level + 1) (operatorWord op.val).1 = true :=
      decide_eq_true (hlevel ▸ op.level_eq)
    rw [tier, node, words, hlevel]
    exact .binary hop (a.derives.enclosed a.tier_known _) (b.derives.enclosed b.tier_known _)
  | conditional a b c =>
    .conditional rfl rfl (a.derives.enclosed a.tier_known (.binary 10))
      (b.derives.toExpression b.tier_known) (c.derives.enclosed c.tier_known .conditional)
  | assignment op a b => by
    rw [node, words]
    exact .assignment (o := operatorWord op.val) op.property
      (a.derives.enclosed a.tier_known .conditional) (b.derives.toExpression b.tier_known)

/-- The words of each of several expressions derive its syntax tree. -/
theorem derivesAll : (as : List Term) → ∃ given : List (Node × List Word),
    given.map Prod.fst = nodes as ∧ given.map Prod.snd = wordsAll as ∧
      ∀ p ∈ given, Derives (NamesType (· = [])) .expression p.1 p.2
  | [] => ⟨[], rfl, rfl, by simp⟩
  | a :: as => by
    obtain ⟨given, hnodes, hwords, hall⟩ := derivesAll as
    refine ⟨(a.node, a.words) :: given, ?_, ?_, ?_⟩
    · rw [List.map_cons, hnodes, nodes]
    · rw [List.map_cons, hwords, wordsAll]
    · exact List.forall_mem_cons.mpr ⟨a.derives.toExpression a.tier_known, hall⟩

end

end Term

/-! ## Texts that spell their words -/

/-- No word runs on over a blank or a semicolon. -/
theorem Token.Kind.runsOn_separator (k : Token.Kind) {c : Char} (hc : c = ' ' ∨ c = ';') :
    k.runsOn c = false := by
  have hoperators : ∀ o ∈ Token.Operator.all,
      (Token.Kind.operator o).runsOn ' ' = false ∧ (Token.Kind.operator o).runsOn ';' = false := by
    decide
  have hwords : continuesWord ' ' = false ∧ continuesWord ';' = false := by decide
  have hnumbers : Token.continuesNumber ' ' = false ∧ Token.continuesNumber ';' = false := by
    decide
  rcases hc with rfl | rfl
  · cases k with
    | operator o => exact (hoperators o o.mem_all).1
    | number => exact hnumbers.1
    | identifier => exact hwords.1
    | keyword _ => exact hwords.1
    | _ => rfl
  · cases k with
    | operator o => exact (hoperators o o.mem_all).2
    | number => exact hnumbers.2
    | identifier => exact hwords.2
    | keyword _ => exact hwords.2
    | _ => rfl

theorem Token.Kind.ends_separator (k : Token.Kind) {c : Char} (hc : c = ' ' ∨ c = ';')
    (cs : List Char) : k.Ends (c :: cs) := by
  intro x hx
  obtain rfl : c = x := by simpa using hx
  exact k.runsOn_separator hc

/-- Words with blanks between them are spelled by their text, before a text that the last of them
does not run on over. -/
theorem spells_blanks_of_readsBack {ws more : List Word} {rest : List Char}
    (hws : ∀ w ∈ ws, w.ReadsBack) (hends : ∀ w ∈ ws, w.1.Ends rest) (h : Spells rest more) :
    Spells ((" ".intercalate (ws.map Prod.snd)).toList ++ rest) (ws ++ more) := by
  induction ws with
  | nil => exact h
  | cons w ws ih =>
      obtain ⟨hw, hws⟩ := List.forall_mem_cons.mp hws
      obtain ⟨hend, hends⟩ := List.forall_mem_cons.mp hends
      cases ws with
      | nil =>
          simpa using hw _ _ hend h
      | cons v ws =>
          have hend := w.1.ends_separator (.inl rfl)
            ((" ".intercalate ((v :: ws).map Prod.snd)).toList ++ rest)
          have hblank := Spells.blank (by decide : Text.isBlank ' ' = true) (ih hws hends)
          have hall := hw _ _ hend hblank
          simpa [String.intercalate_cons_cons] using hall

theorem spells_blanks {ws more : List Word} {rest : List Char} (hws : ∀ w ∈ ws, w.Written)
    (hends : ∀ w ∈ ws, w.1.Ends rest) (h : Spells rest more) :
    Spells ((" ".intercalate (ws.map Prod.snd)).toList ++ rest) (ws ++ more) :=
  spells_blanks_of_readsBack (fun w hw => (hws w hw).readsBack) hends h

section

variable {ws : List Word}

theorem operatorWord_written (o : Token.Operator) : (operatorWord o).Written :=
  .operator o

theorem delimiterWord_written (d : Token.Delimiter) : (delimiterWord d).Written :=
  .delimiter d

theorem parenthesized_written (h : ∀ w ∈ ws, w.Written) : ∀ w ∈ parenthesized ws, w.Written := by
  simp only [parenthesized, List.forall_mem_cons, List.forall_mem_append]
  exact ⟨delimiterWord_written _, h, delimiterWord_written _, by simp⟩

theorem enclosed_written {outer inner : Tier} (h : ∀ w ∈ ws, w.Written) :
    ∀ w ∈ enclosed outer inner ws, w.Written := by
  unfold enclosed
  split
  · exact h
  · exact parenthesized_written h

theorem commaJoined_written {lists : List (List Word)}
    (h : ∀ ws ∈ lists, ∀ w ∈ ws, w.Written) : ∀ w ∈ commaJoined lists, w.Written := by
  induction lists with
  | nil => simp [commaJoined]
  | cons ws rest ih =>
      obtain ⟨hws, hrest⟩ := List.forall_mem_cons.mp h
      cases rest with
      | nil => exact hws
      | cons vs rest =>
          simp only [commaJoined, List.forall_mem_cons, List.forall_mem_append]
          exact ⟨hws, delimiterWord_written _, ih hrest⟩

end

theorem Identifier.written (x : Identifier) : Word.Written (.identifier, x.text) :=
  .identifier x.starts x.continues x.plain

namespace Term

mutual

/-- Each word of an expression reads back as the word. -/
theorem written : (a : Term) → ∀ w ∈ a.words, w.Written
  | name x => by
    simpa [words] using x.written
  | index a i => by
    simp only [words, List.forall_mem_cons, List.forall_mem_append]
    exact ⟨enclosed_written a.written, delimiterWord_written _, i.written,
      delimiterWord_written _, by simp⟩
  | call f given => by
    simp only [words, List.forall_mem_append]
    exact ⟨enclosed_written f.written,
      parenthesized_written (commaJoined_written (writtenAll given))⟩
  | member a x => by
    simp only [words, List.forall_mem_cons, List.forall_mem_append]
    exact ⟨enclosed_written a.written, delimiterWord_written _, x.written, by simp⟩
  | pointerMember a x => by
    simp only [words, List.forall_mem_cons, List.forall_mem_append]
    exact ⟨enclosed_written a.written, operatorWord_written _, x.written, by simp⟩
  | update a op => by
    simp only [words, List.forall_mem_cons, List.forall_mem_append]
    exact ⟨enclosed_written a.written, operatorWord_written _, by simp⟩
  | signed op a => by
    simp only [words, List.forall_mem_cons]
    exact ⟨operatorWord_written _, enclosed_written a.written⟩
  | updated op a => by
    simp only [words, List.forall_mem_cons]
    exact ⟨operatorWord_written _, enclosed_written a.written⟩
  | cast base stars a => by
    have hstars : ∀ w ∈ List.replicate stars (operatorWord .star), w.Written := by
      intro w hw
      rw [List.eq_of_mem_replicate hw]
      exact operatorWord_written _
    simp only [words, List.forall_mem_append]
    exact ⟨parenthesized_written (List.forall_mem_cons.mpr ⟨.keyword base.val, hstars⟩),
      enclosed_written a.written⟩
  | binary op a b => by
    simp only [words, List.forall_mem_cons, List.forall_mem_append]
    exact ⟨enclosed_written a.written, operatorWord_written _, enclosed_written b.written⟩
  | conditional a b c => by
    simp only [words, List.forall_mem_cons, List.forall_mem_append]
    exact ⟨enclosed_written a.written, operatorWord_written _, b.written,
      delimiterWord_written _, enclosed_written c.written⟩
  | assignment op a b => by
    simp only [words, List.forall_mem_cons, List.forall_mem_append]
    exact ⟨enclosed_written a.written, operatorWord_written _, b.written⟩

theorem writtenAll : (as : List Term) → ∀ ws ∈ wordsAll as, ∀ w ∈ ws, w.Written
  | [] => by simp [wordsAll]
  | a :: as => by
    simp only [wordsAll, List.forall_mem_cons]
    exact ⟨a.written, writtenAll as⟩

end

end Term

/-! ## Texts that are read back -/

/-- A list of tokens has no more words than tokens, its end included. -/
theorem Grammar.State.length_script_ofTokens_le (tokens : List Token) (limit : Nat) :
    (State.ofTokens tokens limit).script.length ≤ tokens.length + 1 := by
  refine (length_script_le _).trans ((List.takeWhile_prefix _).length_le.trans ?_)
  split
  · split
    · exact Nat.le_succ _
    · simp
  · simp

/-- The text of an expression, before a semicolon, is read as the expression up to the semicolon,
with no more depth than it has words. -/
theorem expression_text (a : Term) {limit : Nat} (hlimit : a.words.length ≤ limit) :
    ∃ tokens, tokenize (a.text ++ ";") = .ok tokens ∧
      ∃ u v, (Grammar.Rules.forTokens tokens).expression (.ofTokens tokens limit) = .ok u v ∧
        u.unplaced = a.node ∧ v.script = [(.delimiter .semicolon, ";")] := by
  have hsemicolon : Spells [';'] [delimiterWord .semicolon] := by
    have hend : (Token.Kind.delimiter .semicolon).Ends [] := by simp [Token.Kind.Ends]
    exact (delimiterWord_written .semicolon).spells hend .nil
  have hspells : Spells (a.text ++ ";").toList (a.words ++ [delimiterWord .semicolon]) := by
    rw [String.toList_append]
    exact spells_blanks a.written (fun w _ => w.1.ends_separator (.inr rfl) []) hsemicolon
  obtain ⟨tokens, htokens, hscript⟩ := tokenize_of_spells hspells
  refine ⟨tokens, htokens, ?_⟩
  have hlength : a.words.length ≤ 2 * tokens.length + 1 + 1 := by
    have hle := Grammar.State.length_script_ofTokens_le tokens limit
    rw [hscript, List.length_append] at hle
    simp only [List.length_singleton] at hle
    omega
  have hbefore : (Grammar.State.ofTokens tokens limit).Before .expression a.words
      [delimiterWord .semicolon] := by
    refine ⟨hscript limit, Grammar.goesOn_expression_of_delimiter (by simp), ?_⟩
    simpa [Grammar.State.ofTokens, Tier.spare] using hlimit
  obtain ⟨u, v, hrun, htree, hpast⟩ := Grammar.works (a.derives.toExpression a.tier_known) _
    hlength hbefore
  exact ⟨u, v, hrun, htree, hpast.script⟩

/-- A sum stands in parentheses where it is multiplied, and a product where it is converted. -/
theorem expression_text_product :
    let name (c : Char) (starts : startsWord c = true)
        (plain : Token.Keyword.ofWord? [c] = none) : Term := .name ⟨c, [], starts, by simp, plain⟩
    let sum : Term := .binary ⟨.plus, rfl⟩ (name 'a' rfl rfl) (name 'b' rfl rfl)
    let product : Term := .binary ⟨.star, rfl⟩ sum (.signed ⟨.minus, rfl⟩ (name 'c' rfl rfl))
    let whole : Term :=
      .assignment ⟨.assign, rfl⟩ (name 'x' rfl rfl) (.cast ⟨.intKw, rfl⟩ 1 product)
    whole.text = "x = ( int * ) ( ( a + b ) * - c )" ∧ whole.words.length ≤ 16 ∧
      ∃ tokens, tokenize (whole.text ++ ";") = .ok tokens ∧
        ∃ u v, (Grammar.Rules.forTokens tokens).expression (.ofTokens tokens 16) = .ok u v ∧
          u.unplaced = whole.node ∧ v.script = [(.delimiter .semicolon, ";")] := by
  intro name sum product whole
  have hlimit : whole.words.length ≤ 16 := by decide
  exact ⟨rfl, hlimit, expression_text whole hlimit⟩

end CSurvey
