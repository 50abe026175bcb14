import CSurvey.Proofs.Expression.Printing
import CSurvey.Proofs.Grammar.Costs

/-! # What rows and nests cost

Parentheses, calls, signs and operators in a row cost a level each, and the expression that they
make one more. Blocks inside each other cost a level each, and choices with blocks two. -/

namespace CSurvey

/-- The word of a name. -/
def Identifier.word (x : Identifier) : Word :=
  (.identifier, x.text)

/-- An operator that stands between two operands. -/
abbrev InfixOperator := { o : Token.Operator // (o.level.isSome || o.isAssignment) = true }

/-- The words of operators with a name behind each of them. -/
def rowWords (row : List (InfixOperator × Identifier)) : List Word :=
  row.flatMap fun p => [operatorWord p.1.val, p.2.word]

theorem length_rowWords (row : List (InfixOperator × Identifier)) :
    (rowWords row).length = 2 * row.length := by
  induction row with
  | nil => rfl
  | cons p row ih =>
      rw [rowWords, List.flatMap_cons, List.length_append, ← rowWords, ih, List.length_cons]
      simp only [List.length_cons, List.length_nil]
      omega

/-- The words of calls without arguments, one behind the other. -/
def callWords (n : Nat) : List Word :=
  (List.replicate n [delimiterWord .leftParen, delimiterWord .rightParen]).flatten

/-- The words that open a block. -/
def blockOpener : List Word :=
  [delimiterWord .leftBrace]

/-- The words that open a choice with a block. -/
def choiceOpener (x : Identifier) : List Word :=
  (.keyword .ifKw, "if") :: parenthesized [x.word] ++ blockOpener

/-- The words of statements inside each other: all that opens them, and a brace that closes each. -/
def nestWords (opener : List Word) (n : Nat) : List Word :=
  (List.replicate n opener).flatten ++ List.replicate n (delimiterWord .rightBrace)

theorem nestWords_succ (opener : List Word) (n : Nat) :
    nestWords opener (n + 1) =
      opener ++ (nestWords opener n ++ [delimiterWord .rightBrace]) := by
  rw [nestWords, nestWords, List.replicate_succ, List.replicate_succ', List.flatten_cons]
  simp

namespace Grammar

open Costs

variable {ws rest : List Word} {L m n : Nat}

theorem RoundsCost.cast {α : Type} {round : α → Parse (Turn α)} {need used : Nat} {Q : α → Prop}
    (h : RoundsCost round ws rest m n Q) (hneed : need = m) (hused : used = n) :
    RoundsCost round ws rest need used Q := by
  rwa [hneed, hused]

/-! ## Parentheses, calls and signs -/

theorem opensOperand_identifier {x : Word} (hx : x.1 = .identifier) : OpensOperand (x :: ws) :=
  ⟨x, ws, rfl, .inl hx⟩

/-- Behind the last of the opening parentheses no type stands. -/
theorem opensOperand_parens {e : Word} (he : e.1 = .number) (n : Nat) :
    OpensOperand (List.replicate n (delimiterWord .leftParen) ++ e :: ws) := by
  cases n with
  | zero => exact ⟨e, ws, rfl, .inr (.inl he)⟩
  | succ n =>
      refine ⟨_, _, rfl, .inr (.inr ⟨rfl, ?_⟩)⟩
      cases n with
      | zero => exact congrArg Token.Kind.startsType he
      | succ n => rfl

section Parentheses

variable {e : Word} {x : Binary64} (he : e.1 = .number) (hx : Numeral.read e.2 = some x)

include he hx

/-- Each pair of parentheses holds an expression. -/
theorem primary_nested (hn : n ≤ L) (rest : List Word) :
    Costs (primary (.level L)) (List.replicate n (delimiterWord .leftParen) ++
      e :: (List.replicate n (delimiterWord .rightParen) ++ rest)) rest n 0 Always := by
  induction n generalizing L rest with
  | zero => exact primary_number he hx
  | succ n ih =>
      obtain ⟨L, rfl⟩ := Nat.exists_eq_add_one_of_ne_zero (Nat.ne_zero_of_lt hn)
      have hclose : Tier.expression.goesOn (headKind (delimiterWord .rightParen :: rest)) = false :=
        goesOn_expression_of_delimiter (by simp)
      have hinner := expression_of_primary (opensOperand_parens he n)
        (ih (Nat.le_of_succ_le_succ hn) (delimiterWord .rightParen :: rest)) (Nat.zero_le _) hclose
      have hparens := primary_parens (r := .level (L + 1)) (w := delimiterWord .leftParen) rfl rfl
        hinner
      rw [List.replicate_succ, List.replicate_succ', List.append_assoc]
      exact hparens

theorem expression_nested (hn : n ≤ L) (hrest : Tier.expression.goesOn (headKind rest) = false) :
    Costs (expression (.level L)) (List.replicate n (delimiterWord .leftParen) ++
      e :: (List.replicate n (delimiterWord .rightParen) ++ rest)) rest (n + 1) 0 Always :=
  expression_of_primary (opensOperand_parens he n) (primary_nested he hx hn rest) (Nat.zero_le _)
    hrest

end Parentheses

theorem rounds_calls {r : Rules} (n : Nat) (hrest : Tier.operand.goesOn (headKind rest) = false) :
    RoundsCost (operandRound r) (callWords n ++ rest) rest n n Always := by
  induction n with
  | zero => exact lastRound (Costs.operandRound_done hrest)
  | succ n ih =>
      have hcall : ∀ operand, Costs (operandRound r operand)
          (delimiterWord .leftParen :: delimiterWord .rightParen :: (callWords n ++ rest))
          (callWords n ++ rest) 1 1 Turn.IsAgain :=
        operandRound_call rfl rfl
      have hshorter : (callWords n ++ rest).length <
          (delimiterWord .leftParen :: delimiterWord .rightParen :: (callWords n ++ rest)).length :=
        Nat.lt_add_of_pos_right (Nat.succ_pos 1)
      have hround := nextRound hcall hshorter ih
      exact hround.cast (by omega) (by omega)

/-- What is called is called again, and each call is kept in mind to the end of the expression. -/
theorem expression_calls {r : Rules} {f : Word} (hf : f.1 = .identifier) (n : Nat)
    (hrest : Tier.expression.goesOn (headKind rest) = false) :
    Costs (expression r) (f :: (callWords n ++ rest)) rest (n + 1) 0 Always := by
  have hname : Costs (primary r) (f :: (callWords n ++ rest)) (callWords n ++ rest) 0 0 Always :=
    primary_identifier hf
  have hoperand := Costs.operand hname (rounds_calls n (goesOn_operand_of_expression hrest))
  have hwhole := expression_of_unary (unary_of_operand (opensOperand_identifier hf) hoperand)
    (by omega) hrest
  exact hwhole.cast (by omega) rfl

/-- Each sign has an operand that is an operand with a sign again. -/
theorem unary_signs {sign a : Word} {o : Token.Operator} (hsign : sign.1 = .operator o)
    (ho : o.isSign = true) (ha : a.1 = .identifier) (hn : n ≤ L)
    (hrest : Tier.expression.goesOn (headKind rest) = false) :
    Costs (unary (.level L)) (List.replicate n sign ++ a :: rest) rest n 0 Always := by
  induction n generalizing L with
  | zero =>
      exact unary_of_operand (opensOperand_identifier ha) (operand_of_primary
        (primary_identifier ha) (Nat.le_refl _) (goesOn_operand_of_expression hrest))
  | succ n ih =>
      obtain ⟨L, rfl⟩ := Nat.exists_eq_add_one_of_ne_zero (Nat.ne_zero_of_lt hn)
      exact unary_sign (r := .level (L + 1)) hsign ho (ih (Nat.le_of_succ_le_succ hn))

theorem expression_signs {sign a : Word} {o : Token.Operator} (hsign : sign.1 = .operator o)
    (ho : o.isSign = true) (ha : a.1 = .identifier) (hn : n ≤ L)
    (hrest : Tier.expression.goesOn (headKind rest) = false) :
    Costs (expression (.level L)) (List.replicate n sign ++ a :: rest) rest (n + 1) 0 Always :=
  expression_of_unary (unary_signs hsign ho ha hn hrest) (Nat.zero_le _) hrest

/-! ## Operators in a row -/

/-- Whether an operator binds at the level or tighter. -/
def bindsWithin (level : Nat) (p : InfixOperator × Identifier) : Bool :=
  p.1.val.level.any (· ≤ level)

theorem takeWhile_append_takeWhile {α : Type} {p q : α → Bool} (h : ∀ a, p a = true → q a = true)
    (as : List α) : as.takeWhile p ++ (as.dropWhile p).takeWhile q = as.takeWhile q := by
  induction as with
  | nil => rfl
  | cons a as ih =>
      by_cases hp : p a = true
      · simp [hp, h a hp, ih]
      · simp [hp]

theorem dropWhile_dropWhile {α : Type} {p q : α → Bool} (h : ∀ a, p a = true → q a = true)
    (as : List α) : (as.dropWhile p).dropWhile q = as.dropWhile q := by
  induction as with
  | nil => rfl
  | cons a as ih =>
      by_cases hp : p a = true
      · simp [hp, h a hp, ih]
      · simp [hp]

section Rows

variable {level : Nat} {r : Rules} {p : InfixOperator × Identifier}
  {row : List (InfixOperator × Identifier)}

theorem bindsWithin_zero (p : InfixOperator × Identifier) : bindsWithin 0 p = false := by
  unfold bindsWithin
  cases hlevel : p.1.val.level with
  | none => rfl
  | some l =>
      have hpos := (Token.Operator.level_bounds hlevel).1
      exact decide_eq_false (by omega)

theorem bindsWithin_succ (h : bindsWithin level p = true) : bindsWithin (level + 1) p = true := by
  unfold bindsWithin at h ⊢
  cases hlevel : p.1.val.level with
  | none =>
      rw [hlevel] at h
      contradiction
  | some l =>
      rw [hlevel] at h
      have hle : l ≤ level := of_decide_eq_true h
      exact decide_eq_true (by omega)

/-- What binds at a level and no tighter is of the level. -/
theorem level_of_bindsWithin (h : bindsWithin (level + 1) p = true)
    (hnot : bindsWithin level p = false) : p.1.val.level = some (level + 1) := by
  unfold bindsWithin at h hnot
  cases hlevel : p.1.val.level with
  | none =>
      rw [hlevel] at h
      contradiction
  | some l =>
      rw [hlevel] at h hnot
      have hle : l ≤ level + 1 := of_decide_eq_true h
      have hlt : ¬l ≤ level := of_decide_eq_false hnot
      rw [show l = level + 1 by omega]

theorem isOfLevel_of_not_bindsWithin (hnot : bindsWithin (level + 1) p = false) :
    isOfLevel (level + 1) (.operator p.1.val) = false := by
  refine decide_eq_false fun hlevel => ?_
  rw [bindsWithin, hlevel] at hnot
  exact of_decide_eq_false hnot (Nat.le_refl _)

/-- An operator that no level has assigns. -/
theorem isAssignment_of_not_bindsWithin (hnot : bindsWithin 10 p = false) :
    p.1.val.isAssignment = true := by
  obtain ⟨⟨o, ho⟩, x⟩ := p
  cases hlevel : o.level with
  | none => simpa [hlevel] using ho
  | some l =>
      simp only [bindsWithin, hlevel] at hnot
      exact absurd (Token.Operator.level_bounds hlevel).2 (of_decide_eq_false hnot)

theorem infix_separates (o : InfixOperator) :
    continuesOperand (.operator o.val) = false ∧ o.val ≠ .question := by
  obtain ⟨o, ho⟩ := o
  cases o <;> first | exact ⟨rfl, nofun⟩ | contradiction

/-- What stands behind all that binds within a level does not. -/
theorem bindsWithin_head (level : Nat) (row : List (InfixOperator × Identifier)) :
    ∀ p ∈ (row.dropWhile (bindsWithin level)).head?, bindsWithin level p = false := by
  intro p hp
  have hnot := List.head?_dropWhile_not (bindsWithin level) row
  rw [Option.mem_def.mp hp] at hnot
  simpa using hnot

/-- What binds within a level comes first, and then what binds at the next one. -/
theorem length_takeWhile_bindsWithin (level : Nat) (row : List (InfixOperator × Identifier)) :
    (row.takeWhile (bindsWithin level)).length +
        ((row.dropWhile (bindsWithin level)).takeWhile (bindsWithin (level + 1))).length =
      (row.takeWhile (bindsWithin (level + 1))).length := by
  rw [← List.length_append, takeWhile_append_takeWhile fun _ => bindsWithin_succ]

variable (hrest : Tier.expression.goesOn (headKind rest) = false)

include hrest

theorem isOfLevel_rest (hlevel : level < 10) : isOfLevel (level + 1) (headKind rest) = false := by
  simp only [Tier.goesOn, goesOnUpTo, Bool.or_eq_false_iff, List.any_eq_false] at hrest
  simpa using hrest.1.1.2 level (List.mem_range.mpr hlevel)

/-- No name goes on with what stands behind it in a row. -/
theorem goesOn_row (row : List (InfixOperator × Identifier)) :
    Tier.operand.goesOn (headKind (rowWords row ++ rest)) = false ∧
      headKind (rowWords row ++ rest) ≠ .operator .question := by
  cases row with
  | nil =>
      have hquestion : headKind rest ≠ .operator .question := by
        simp only [Tier.goesOn, Bool.or_eq_false_iff, decide_eq_false_iff_not] at hrest
        exact hrest.1.2
      exact ⟨goesOn_operand_of_expression hrest, hquestion⟩
  | cons p row =>
      obtain ⟨hcontinues, hquestion⟩ := infix_separates p.1
      have hhead : headKind (rowWords (p :: row) ++ rest) = .operator p.1.val := rfl
      rw [hhead]
      exact ⟨by simp [Tier.goesOn, goesOnUpTo, hcontinues], by simpa using hquestion⟩

/-- The rounds of a chain take the operators of its level, each with a tighter row behind it. -/
theorem rounds_row (hlevel : level < 10)
    (hoperand : ∀ (x : Identifier) (row : List (InfixOperator × Identifier)),
      Costs (binary r level) (x.word :: (rowWords row ++ rest))
        (rowWords (row.dropWhile (bindsWithin level)) ++ rest)
        (row.takeWhile (bindsWithin level)).length (row.takeWhile (bindsWithin level)).length
        Always)
    (row : List (InfixOperator × Identifier))
    (hrow : ∀ p ∈ row.head?, bindsWithin level p = false) :
    RoundsCost (chainRound (level + 1) (binary r level)) (rowWords row ++ rest)
      (rowWords (row.dropWhile (bindsWithin (level + 1))) ++ rest)
      (row.takeWhile (bindsWithin (level + 1))).length
      (row.takeWhile (bindsWithin (level + 1))).length Always := by
  -- On the length, since an operator takes the tighter ones behind it along with its own operand.
  induction hn : row.length using Nat.strong_induction_on generalizing row with
  | _ n ih =>
      subst hn
      cases row with
      | nil => exact lastRound (Costs.chainRound_done (isOfLevel_rest hrest hlevel))
      | cons p row =>
          cases hp : bindsWithin (level + 1) p with
          | false =>
              rw [List.takeWhile_cons_of_neg (by simp [hp]),
                List.dropWhile_cons_of_neg (by simp [hp])]
              exact lastRound (Costs.chainRound_done (isOfLevel_of_not_bindsWithin hp))
          | true =>
              have hop : isOfLevel (level + 1) (operatorWord p.1.val).1 = true :=
                decide_eq_true (level_of_bindsWithin hp (hrow p rfl))
              have hround := chainRound_again hop (hoperand p.2 row) (Nat.le_refl _)
              have hshorter : (row.dropWhile (bindsWithin level)).length ≤ row.length :=
                (List.dropWhile_suffix _).length_le
              have hmore := ih _ (Nat.lt_succ_of_le hshorter) (row.dropWhile (bindsWithin level))
                (bindsWithin_head level row) rfl
              have hcount := length_takeWhile_bindsWithin level row
              rw [dropWhile_dropWhile fun _ => bindsWithin_succ] at hmore
              rw [List.takeWhile_cons_of_pos hp, List.dropWhile_cons_of_pos hp, List.length_cons]
              refine (nextRound hround ?_ hmore).cast (by omega) (by omega)
              simp only [List.length_cons, List.length_append, length_rowWords]
              omega

/-- Up to a level, names take the operators that bind within it, and keep a level for each. -/
theorem binary_row (hlevel : level ≤ 10) (x : Identifier)
    (row : List (InfixOperator × Identifier)) :
    Costs (binary r level) (x.word :: (rowWords row ++ rest))
      (rowWords (row.dropWhile (bindsWithin level)) ++ rest)
      (row.takeWhile (bindsWithin level)).length (row.takeWhile (bindsWithin level)).length
      Always := by
  induction level generalizing x row with
  | zero =>
      have htake : row.takeWhile (bindsWithin 0) = [] := by
        cases row <;> simp [bindsWithin_zero]
      have hdrop : row.dropWhile (bindsWithin 0) = row := by
        cases row <;> simp [bindsWithin_zero]
      rw [htake, hdrop]
      exact unary_of_operand (opensOperand_identifier rfl) (operand_of_primary
        (primary_identifier rfl) (Nat.le_refl _) (goesOn_row hrest row).1)
  | succ level ih =>
      have hfirst := ih (Nat.le_of_succ_le hlevel) x row
      have hrounds := rounds_row hrest hlevel (fun y more => ih (Nat.le_of_succ_le hlevel) y more)
        (row.dropWhile (bindsWithin level)) (bindsWithin_head level row)
      have hcount := length_takeWhile_bindsWithin level row
      rw [dropWhile_dropWhile fun _ => bindsWithin_succ] at hrounds
      exact (hfirst.bind fun _ _ => Costs.loop hrounds).cast (by omega) (by omega)

/-- An operator that assigns has an expression behind it, so that it counts like the others. -/
theorem expression_row (x : Identifier) (row : List (InfixOperator × Identifier))
    (hL : row.length ≤ L) :
    Costs (expression (.level L)) (x.word :: (rowWords row ++ rest)) rest (row.length + 1) 0
      Always := by
  -- On the rules, since those one level below read what stands behind an operator that assigns.
  induction L generalizing x row with
  | zero =>
      obtain rfl := List.length_eq_zero_iff.mp (Nat.le_zero.mp hL)
      exact expression_of_primary (opensOperand_identifier rfl) (primary_identifier rfl)
        (Nat.le_refl _) hrest
  | succ L ih =>
      have hbinary := binary_row (r := .level (L + 1)) hrest (Nat.le_refl 10) x row
      have hquestion := (goesOn_row hrest (row.dropWhile (bindsWithin 10))).2
      have htarget := conditional_of_binary hbinary (Nat.le_refl _) hquestion
      have hsplit := congrArg List.length (List.takeWhile_append_dropWhile
        (p := bindsWithin 10) (l := row))
      have hhead := bindsWithin_head 10 row
      rw [List.length_append] at hsplit
      generalize row.dropWhile (bindsWithin 10) = behind at htarget hsplit hhead
      cases behind with
      | nil =>
          have hnone : (headKind rest).isAssignment = false := by
            simp only [Tier.goesOn, Bool.or_eq_false_iff] at hrest
            exact hrest.2
          refine (expression_of_conditional htarget (Nat.le_refl _) hnone).cast ?_ rfl
          rw [← hsplit, List.length_nil, Nat.add_zero]
      | cons p more =>
          rw [List.length_cons] at hsplit
          have hassign : (Token.Kind.operator p.1.val).isAssignment = true :=
            isAssignment_of_not_bindsWithin (hhead p rfl)
          have hvalue := ih p.2 more (by omega)
          let tight := (row.takeWhile (bindsWithin 10)).length
          refine (Costs.oneDeeper (m := max tight (tight + (more.length + 1))) (n := tight + 0)
            ?_).cast (by omega) rfl
          exact htarget.bind fun _ _ => bindKind rfl (ifPos hassign (bindTake fun _ _ =>
            hvalue.bindPure (Nat.zero_le _) fun _ _ => Costs.pure trivial))

end Rows

/-! ## Statements inside each other -/

/-- A block that holds the nest costs what the statements of the nest do, where each of them costs
so much more than its block. -/
theorem block_nest (before : List Word) (cost : Nat)
    (hbrace : headKind (before ++ blockOpener) ≠ .delimiter .rightBrace)
    (hend : headKind (before ++ blockOpener) ≠ .endOfInput)
    (hstep : ∀ {L need : Nat} {ws rest : List Word}, headKind rest = .delimiter .rightBrace →
      Costs (block (.level L)) (delimiterWord .leftBrace :: ws) rest need 0 Always →
      Costs (Rules.level (L + cost)).statement (before ++ delimiterWord .leftBrace :: ws) rest
        (need + cost) 0 Always)
    (hn : n * cost ≤ L) (rest : List Word) :
    Costs (block (.level L)) (delimiterWord .leftBrace ::
      (nestWords (before ++ blockOpener) n ++ delimiterWord .rightBrace :: rest)) rest (n * cost) 0
      Always := by
  induction n generalizing L rest with
  | zero => exact (block_empty rfl rfl).cast (Nat.zero_mul _) rfl
  | succ n ih =>
      rw [Nat.succ_mul] at hn ⊢
      obtain ⟨L, rfl⟩ := Nat.exists_eq_add_of_le' (show cost ≤ L by omega)
      have hfewer : n * cost ≤ L := by omega
      have hinner := hstep rfl (ih hfewer (delimiterWord .rightBrace :: rest))
      have hwords : nestWords (before ++ blockOpener) (n + 1) ++ delimiterWord .rightBrace :: rest =
          before ++ delimiterWord .leftBrace :: (nestWords (before ++ blockOpener) n ++
            delimiterWord .rightBrace :: delimiterWord .rightBrace :: rest) := by
        rw [nestWords_succ]
        simp [blockOpener]
      have hhead : ∀ ws : List Word, headKind (before ++ delimiterWord .leftBrace :: ws) =
          headKind (before ++ blockOpener) := by
        intro ws
        cases before <;> rfl
      rw [hwords]
      refine block_single (c := delimiterWord .rightBrace) rfl rfl ?_ ?_ ?_ hinner
      · rwa [hhead]
      · rwa [hhead]
      · simp only [List.length_append, List.length_cons]
        omega

theorem block_blocks (hn : n ≤ L) (rest : List Word) :
    Costs (block (.level L)) (delimiterWord .leftBrace ::
      (nestWords blockOpener n ++ delimiterWord .rightBrace :: rest)) rest n 0 Always := by
  have hnest := block_nest (n := n) (L := L) [] 1 nofun nofun (fun _ h => statement_block rfl h)
    (by omega) rest
  exact hnest.cast (Nat.mul_one n).symm rfl

theorem block_choices (x : Identifier) (hn : 2 * n ≤ L) (rest : List Word) :
    Costs (block (.level L)) (delimiterWord .leftBrace ::
      (nestWords (choiceOpener x) n ++ delimiterWord .rightBrace :: rest)) rest (2 * n) 0
      Always := by
  have hstep : ∀ {L need : Nat} {ws rest : List Word}, headKind rest = .delimiter .rightBrace →
      Costs (block (.level L)) (delimiterWord .leftBrace :: ws) rest need 0 Always →
      Costs (Rules.level (L + 2)).statement
        (((.keyword .ifKw, "if") :: parenthesized [x.word]) ++ delimiterWord .leftBrace :: ws) rest
        (need + 2) 0 Always := by
    intro L need ws rest hrest h
    have hclose : Tier.expression.goesOn (.delimiter .rightParen) = false :=
      goesOn_expression_of_delimiter (by simp)
    have htest : Costs (expression (.level L)) (x.word :: delimiterWord .rightParen ::
        delimiterWord .leftBrace :: ws) (delimiterWord .rightParen ::
        delimiterWord .leftBrace :: ws) 1 0 Always :=
      expression_of_primary (opensOperand_identifier rfl) (primary_identifier rfl) (Nat.le_refl _)
        hclose
    have helse : headKind rest ≠ .keyword .elseKw := by simp [hrest]
    have hchoice := statement_if (r := .level (L + 1)) (i := (.keyword .ifKw, "if"))
      (o := delimiterWord .leftParen) rfl rfl rfl helse htest (statement_block rfl h)
    exact hchoice.cast (by omega) rfl
  have hnest := block_nest (n := n) (L := L) _ 2 (by simp) (by simp) hstep (by omega) rest
  exact hnest.cast (Nat.mul_comm 2 n) rfl

end Grammar

end CSurvey
