import CSurvey.Grammar.Expression
import CSurvey.Proofs.Grammar.Words

/-! # Derivations of expressions

The grammar of expressions as a relation between trees and the words that they are written with.
The tiers are the nonterminals of the grammar, from the inside out. -/

namespace CSurvey

/-- What an expression is read as. Tier `binary level` has operators of that level or tighter ones
between its operands. -/
inductive Tier where
  | primary | operand | unary | binary (level : Nat) | conditional | expression
deriving DecidableEq, Repr

/-- The words open a type in parentheses. -/
def OpensType (ws : List Word) : Prop :=
  ∃ o w rest, ws = o :: w :: rest ∧ o.1 = .delimiter .leftParen ∧ w.1.startsType = true

theorem OpensType.append {ws : List Word} (h : OpensType ws) (rest : List Word) :
    OpensType (ws ++ rest) := by
  obtain ⟨o, w, ws, rfl, ho, hw⟩ := h
  exact ⟨o, w, ws ++ rest, rfl, ho, hw⟩

/-- The lists, one after the other, with a comma between them. -/
inductive Separated : List (List Word) → List Word → Prop where
  | none : Separated [] []
  | one (ws : List Word) : Separated [ws] ws
  | more {c : Word} {ws vs us : List Word} {rest : List (List Word)}
      (hcomma : c.1 = .delimiter .comma) :
      Separated (vs :: rest) us → Separated (ws :: vs :: rest) (ws ++ c :: us)

/-- The first list comes first. -/
theorem Separated.head {ws us : List Word} {rest : List (List Word)}
    (h : Separated (ws :: rest) us) (hws : ws ≠ []) : us.head? = ws.head? := by
  obtain ⟨w, ws, rfl⟩ := List.exists_cons_of_ne_nil hws
  cases h with
  | one => rfl
  | more => rfl

theorem Separated.length_le {ws us : List Word} {lists : List (List Word)}
    (h : Separated lists us) (hws : ws ∈ lists) : ws.length ≤ us.length := by
  induction h with
  | none => contradiction
  | one vs =>
      obtain rfl := List.mem_singleton.mp hws
      exact Nat.le_refl _
  | @more c vs vs' us rest _ _ ih =>
      rw [List.length_append, List.length_cons]
      rcases List.mem_cons.mp hws with rfl | hws
      · omega
      · have hle := ih hws
        omega

/-- The words of each list are among those of all of them. -/
theorem Separated.mem {ws us : List Word} {lists : List (List Word)} {w : Word}
    (h : Separated lists us) (hws : ws ∈ lists) (hw : w ∈ ws) : w ∈ us := by
  induction h with
  | none => contradiction
  | one vs =>
      obtain rfl := List.mem_singleton.mp hws
      exact hw
  | more _ _ ih =>
      rcases List.mem_cons.mp hws with rfl | hws
      · exact List.mem_append_left _ hw
      · exact List.mem_append_right _ (List.mem_cons_of_mem _ (ih hws))

/-- No expression opens like a type. -/
theorem startsType_of_startsExpression {k : Token.Kind} (h : k.startsExpression = true) :
    k.startsType = false := by
  cases k with
  | keyword word => cases word <;> first | rfl | contradiction
  | _ => rfl

theorem Grammar.exists_operator_of_isOfLevel {level : Nat} {k : Token.Kind}
    (h : Grammar.isOfLevel level k = true) : ∃ o, k = .operator o ∧ o.level = some level := by
  cases k with
  | operator o => exact ⟨o, rfl, of_decide_eq_true h⟩
  | _ => contradiction

theorem Token.Kind.exists_operator_of_isAssignment {k : Token.Kind}
    (h : k.isAssignment = true) : ∃ o, k = .operator o := by
  cases k with
  | operator o => exact ⟨o, rfl⟩
  | _ => contradiction

/-- The tree, without its places, is derived from the words at a tier. `Names` says which words
name a type of the given text. -/
inductive Derives (Names : String → List Word → Prop) : Tier → Node → List Word → Prop where
  | number {w : Word} {x : Binary64} (hw : w.1 = .number) (hx : Numeral.read w.2 = some x) :
      Derives Names .primary ⟨.number, some (.number x), [], .start⟩ [w]
  | strings {w : Word} {ws : List Word} (h : ∀ v ∈ w :: ws, v.1 = .string) :
      Derives Names .primary
        (.texted .string (String.join ((w :: ws).map fun v => Grammar.unquoted v.2)) .start [])
        (w :: ws)
  | character {w : Word} (hw : w.1 = .character) :
      Derives Names .primary (.texted .character (Grammar.unquoted w.2) .start []) [w]
  | identifier {w : Word} (hw : w.1 = .identifier) :
      Derives Names .primary (.texted .identifier w.2 .start []) [w]
  | parens {o c : Word} {t : Node} {ws : List Word} (ho : o.1 = .delimiter .leftParen)
      (hc : c.1 = .delimiter .rightParen) :
      Derives Names .expression t ws → Derives Names .primary t (o :: (ws ++ [c]))
  | ofPrimary {t : Node} {ws : List Word} :
      Derives Names .primary t ws → Derives Names .operand t ws
  | index {a i : Node} {as is : List Word} {o c : Word} (ho : o.1 = .delimiter .leftBracket)
      (hc : c.1 = .delimiter .rightBracket) :
      Derives Names .operand a as → Derives Names .expression i is →
      Derives Names .operand (.texted .index "[]" .start [a, i]) (as ++ o :: (is ++ [c]))
  | call {f : Node} {fs gs : List Word} {given : List (Node × List Word)} {o c : Word}
      (ho : o.1 = .delimiter .leftParen) (hc : c.1 = .delimiter .rightParen)
      (hgs : Separated (given.map Prod.snd) gs) :
      Derives Names .operand f fs → (∀ p ∈ given, Derives Names .expression p.1 p.2) →
      Derives Names .operand (.texted .call "()" .start (f :: given.map Prod.fst))
        (fs ++ o :: (gs ++ [c]))
  | member {a : Node} {as : List Word} {o name : Word} (hop : o.1 = .delimiter .dot)
      (hname : name.1 = .identifier) :
      Derives Names .operand a as →
      Derives Names .operand
        (.texted .member o.2 .start [a, .texted .identifier name.2 .start []])
        (as ++ [o, name])
  | pointerMember {a : Node} {as : List Word} {o name : Word} (hop : o.1 = .operator .arrow)
      (hname : name.1 = .identifier) :
      Derives Names .operand a as →
      Derives Names .operand
        (.texted .pointerMember o.2 .start [a, .texted .identifier name.2 .start []])
        (as ++ [o, name])
  | update {a : Node} {as : List Word} {o : Word} {sign : Token.Operator}
      (hop : o.1 = .operator sign) (hsign : sign.isUpdate = true) :
      Derives Names .operand a as →
      Derives Names .operand (.texted .update o.2 .start [a]) (as ++ [o])
  | ofOperand {t : Node} {ws : List Word} :
      Derives Names .operand t ws → Derives Names .unary t ws
  | signed {a : Node} {as : List Word} {o : Word} {sign : Token.Operator}
      (hop : o.1 = .operator sign) (hsign : sign.isSign = true) :
      Derives Names .unary a as →
      Derives Names .unary (.texted .unary o.2 .start [a]) (o :: as)
  | updated {a : Node} {as : List Word} {o : Word} {sign : Token.Operator}
      (hop : o.1 = .operator sign) (hsign : sign.isUpdate = true) :
      Derives Names .operand a as →
      Derives Names .unary (.texted .unary o.2 .start [a]) (o :: as)
  | sizeOfType {k o c : Word} {type : String} {ts : List Word}
      (hk : k.1 = .keyword .sizeofKw) (ho : o.1 = .delimiter .leftParen)
      (hc : c.1 = .delimiter .rightParen) (ht : Names type ts) :
      Derives Names .unary (.texted .sizeOf type .start []) (k :: o :: (ts ++ [c]))
  | sizeOf {k : Word} {a : Node} {as : List Word} (hk : k.1 = .keyword .sizeofKw)
      (ha : ¬OpensType as) :
      Derives Names .unary a as → Derives Names .unary (.plain .sizeOf .start [a]) (k :: as)
  | cast {o c : Word} {type : String} {a : Node} {ts as : List Word}
      (ho : o.1 = .delimiter .leftParen) (hc : c.1 = .delimiter .rightParen)
      (ht : Names type ts) :
      Derives Names .unary a as →
      Derives Names .unary (.texted .cast type .start [a]) (o :: (ts ++ c :: as))
  | ofUnary {t : Node} {ws : List Word} :
      Derives Names .unary t ws → Derives Names (.binary 0) t ws
  | ofTighter {level : Nat} {t : Node} {ws : List Word} :
      Derives Names (.binary level) t ws → Derives Names (.binary (level + 1)) t ws
  | binary {level : Nat} {a b : Node} {as bs : List Word} {o : Word}
      (hop : Grammar.isOfLevel (level + 1) o.1 = true) :
      Derives Names (.binary (level + 1)) a as → Derives Names (.binary level) b bs →
      Derives Names (.binary (level + 1)) (.texted .binary o.2 .start [a, b]) (as ++ o :: bs)
  | ofBinary {t : Node} {ws : List Word} :
      Derives Names (.binary 10) t ws → Derives Names .conditional t ws
  | conditional {a b c : Node} {as bs cs : List Word} {q d : Word}
      (hq : q.1 = .operator .question) (hd : d.1 = .delimiter .colon) :
      Derives Names (.binary 10) a as → Derives Names .expression b bs →
      Derives Names .conditional c cs →
      Derives Names .conditional (.texted .conditional "?:" .start [a, b, c])
        (as ++ q :: (bs ++ d :: cs))
  | ofConditional {t : Node} {ws : List Word} :
      Derives Names .conditional t ws → Derives Names .expression t ws
  | assignment {a b : Node} {as bs : List Word} {o : Word} (hop : o.1.isAssignment = true) :
      Derives Names .conditional a as → Derives Names .expression b bs →
      Derives Names .expression (.texted .assignment o.2 .start [a, b]) (as ++ o :: bs)

namespace Derives

variable {Names : String → List Word → Prop} {tier : Tier} {t : Node} {ws : List Word}

/-- The first word of an expression is one that opens expressions. -/
theorem head (h : Derives Names tier t ws) :
    ∃ w ws', ws = w :: ws' ∧ w.1.startsExpression = true := by
  induction h with
  | number hw => exact ⟨_, _, rfl, by simp [hw, Token.Kind.startsExpression]⟩
  | strings h =>
      have hw := h _ (List.mem_cons_self ..)
      exact ⟨_, _, rfl, by simp [hw, Token.Kind.startsExpression]⟩
  | character hw => exact ⟨_, _, rfl, by simp [hw, Token.Kind.startsExpression]⟩
  | identifier hw => exact ⟨_, _, rfl, by simp [hw, Token.Kind.startsExpression]⟩
  | parens ho => exact ⟨_, _, rfl, by simp [ho, Token.Kind.startsExpression]⟩
  | signed hop hsign => exact ⟨_, _, rfl, by simp [hop, hsign, Token.Kind.startsExpression]⟩
  | updated hop hsign => exact ⟨_, _, rfl, by simp [hop, hsign, Token.Kind.startsExpression]⟩
  | sizeOfType hk => exact ⟨_, _, rfl, by simp [hk, Token.Kind.startsExpression]⟩
  | sizeOf hk => exact ⟨_, _, rfl, by simp [hk, Token.Kind.startsExpression]⟩
  | cast ho => exact ⟨_, _, rfl, by simp [ho, Token.Kind.startsExpression]⟩
  | index _ _ _ _ ih =>
      obtain ⟨w, ws, rfl, hw⟩ := ih
      exact ⟨w, _, rfl, hw⟩
  | call _ _ _ _ _ ih =>
      obtain ⟨w, ws, rfl, hw⟩ := ih
      exact ⟨w, _, rfl, hw⟩
  | member _ _ _ ih =>
      obtain ⟨w, ws, rfl, hw⟩ := ih
      exact ⟨w, _, rfl, hw⟩
  | pointerMember _ _ _ ih =>
      obtain ⟨w, ws, rfl, hw⟩ := ih
      exact ⟨w, _, rfl, hw⟩
  | update _ _ _ ih =>
      obtain ⟨w, ws, rfl, hw⟩ := ih
      exact ⟨w, _, rfl, hw⟩
  | binary _ _ _ ih =>
      obtain ⟨w, ws, rfl, hw⟩ := ih
      exact ⟨w, _, rfl, hw⟩
  | conditional _ _ _ _ _ ih =>
      obtain ⟨w, ws, rfl, hw⟩ := ih
      exact ⟨w, _, rfl, hw⟩
  | assignment _ _ _ ih =>
      obtain ⟨w, ws, rfl, hw⟩ := ih
      exact ⟨w, _, rfl, hw⟩
  | ofPrimary _ ih => exact ih
  | ofOperand _ ih => exact ih
  | ofUnary _ ih => exact ih
  | ofTighter _ ih => exact ih
  | ofBinary _ ih => exact ih
  | ofConditional _ ih => exact ih

theorem ne_nil (h : Derives Names tier t ws) : ws ≠ [] := by
  obtain ⟨w, ws, rfl, -⟩ := h.head
  exact List.cons_ne_nil _ _

/-- An operand with nothing before it is no type in parentheses, whatever follows. -/
theorem not_opensType (h : Derives Names tier t ws) (ht : tier = .primary ∨ tier = .operand)
    (rest : List Word) : ¬OpensType (ws ++ rest) := by
  have hcons : ∀ {w : Word} {ws : List Word} {k : Token.Kind}, w.1 = k →
      k ≠ .delimiter .leftParen → ¬OpensType (w :: ws) := by
    rintro w ws k hw hk ⟨o, v, rest, heq, ho, -⟩
    obtain ⟨rfl, -⟩ := List.cons.inj heq
    exact hk (hw.symm.trans ho)
  induction h generalizing rest with
  | number hw => exact hcons hw (by simp)
  | strings h => exact hcons (h _ (List.mem_cons_self ..)) (by simp)
  | character hw => exact hcons hw (by simp)
  | identifier hw => exact hcons hw (by simp)
  | parens ho hc h =>
      rintro ⟨o, v, rest', heq, ho, hv⟩
      obtain ⟨w, ws, rfl, hw⟩ := h.head
      obtain ⟨-, heq⟩ := List.cons.inj heq
      obtain ⟨rfl, -⟩ := List.cons.inj heq
      rw [startsType_of_startsExpression hw] at hv
      contradiction
  | ofPrimary _ ih => exact ih (.inl rfl) rest
  | index _ _ _ _ ih =>
      rw [List.append_assoc]
      exact ih (.inr rfl) _
  | call _ _ _ _ _ ih =>
      rw [List.append_assoc]
      exact ih (.inr rfl) _
  | member _ _ _ ih =>
      rw [List.append_assoc]
      exact ih (.inr rfl) _
  | pointerMember _ _ _ ih =>
      rw [List.append_assoc]
      exact ih (.inr rfl) _
  | update _ _ _ ih =>
      rw [List.append_assoc]
      exact ih (.inr rfl) _
  | _ => simp at ht

/-- Whether an expression opens like a type in parentheses does not depend on what follows. -/
theorem opensType_of_append (h : Derives Names tier t ws) {rest : List Word}
    (hopen : OpensType (ws ++ rest)) : OpensType ws := by
  have hcons : ∀ {w : Word} {ws : List Word} {k : Token.Kind}, w.1 = k →
      k ≠ .delimiter .leftParen → ¬OpensType (w :: ws) := by
    rintro w ws k hw hk ⟨o, v, rest, heq, ho, -⟩
    obtain ⟨rfl, -⟩ := List.cons.inj heq
    exact hk (hw.symm.trans ho)
  induction h generalizing rest with
  | number hw => exact absurd hopen (hcons hw (by simp))
  | strings h => exact absurd hopen (hcons (h _ (List.mem_cons_self ..)) (by simp))
  | character hw => exact absurd hopen (hcons hw (by simp))
  | identifier hw => exact absurd hopen (hcons hw (by simp))
  | parens ho hc h => exact absurd hopen ((parens ho hc h).not_opensType (.inl rfl) _)
  | signed hop => exact absurd hopen (hcons hop (by simp))
  | updated hop => exact absurd hopen (hcons hop (by simp))
  | sizeOfType hk => exact absurd hopen (hcons hk (by simp))
  | sizeOf hk => exact absurd hopen (hcons hk (by simp))
  | @cast o c type a ts as ho hc ht ha ih =>
      obtain ⟨o', w, rest', heq, -, hw⟩ := hopen
      cases ts with
      | nil =>
          obtain ⟨-, htail⟩ := List.cons.inj heq
          obtain ⟨rfl, -⟩ := List.cons.inj htail
          exact ⟨_, _, _, rfl, ho, hw⟩
      | cons x ts =>
          obtain ⟨-, htail⟩ := List.cons.inj heq
          obtain ⟨rfl, -⟩ := List.cons.inj htail
          exact ⟨_, _, _, rfl, ho, hw⟩
  | index _ _ _ _ ih =>
      rw [List.append_assoc] at hopen
      exact (ih hopen).append _
  | call _ _ _ _ _ ih =>
      rw [List.append_assoc] at hopen
      exact (ih hopen).append _
  | member _ _ _ ih =>
      rw [List.append_assoc] at hopen
      exact (ih hopen).append _
  | pointerMember _ _ _ ih =>
      rw [List.append_assoc] at hopen
      exact (ih hopen).append _
  | update _ _ _ ih =>
      rw [List.append_assoc] at hopen
      exact (ih hopen).append _
  | binary _ _ _ ih =>
      rw [List.append_assoc] at hopen
      exact (ih hopen).append _
  | conditional _ _ _ _ _ ih =>
      rw [List.append_assoc] at hopen
      exact (ih hopen).append _
  | assignment _ _ _ ih =>
      rw [List.append_assoc] at hopen
      exact (ih hopen).append _
  | ofPrimary _ ih => exact ih hopen
  | ofOperand _ ih => exact ih hopen
  | ofUnary _ ih => exact ih hopen
  | ofTighter _ ih => exact ih hopen
  | ofBinary _ ih => exact ih hopen
  | ofConditional _ ih => exact ih hopen

/-- An operand opens with no operator and no keyword. -/
theorem head_operand (h : Derives Names tier t ws) (ht : tier = .primary ∨ tier = .operand) :
    ∃ w ws', ws = w :: ws' ∧ (∀ o, w.1 ≠ .operator o) ∧ ∀ k, w.1 ≠ .keyword k := by
  induction h with
  | number hw => exact ⟨_, _, rfl, by simp [hw], by simp [hw]⟩
  | strings h =>
      have hw := h _ (List.mem_cons_self ..)
      exact ⟨_, _, rfl, by simp [hw], by simp [hw]⟩
  | character hw => exact ⟨_, _, rfl, by simp [hw], by simp [hw]⟩
  | identifier hw => exact ⟨_, _, rfl, by simp [hw], by simp [hw]⟩
  | parens ho => exact ⟨_, _, rfl, by simp [ho], by simp [ho]⟩
  | ofPrimary _ ih => exact ih (.inl rfl)
  | index _ _ _ _ ih =>
      obtain ⟨w, ws, rfl, hw⟩ := ih (.inr rfl)
      exact ⟨w, _, rfl, hw⟩
  | call _ _ _ _ _ ih =>
      obtain ⟨w, ws, rfl, hw⟩ := ih (.inr rfl)
      exact ⟨w, _, rfl, hw⟩
  | member _ _ _ ih =>
      obtain ⟨w, ws, rfl, hw⟩ := ih (.inr rfl)
      exact ⟨w, _, rfl, hw⟩
  | pointerMember _ _ _ ih =>
      obtain ⟨w, ws, rfl, hw⟩ := ih (.inr rfl)
      exact ⟨w, _, rfl, hw⟩
  | update _ _ _ ih =>
      obtain ⟨w, ws, rfl, hw⟩ := ih (.inr rfl)
      exact ⟨w, _, rfl, hw⟩
  | _ => simp at ht

end Derives

end CSurvey
