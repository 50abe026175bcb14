import CSurvey.Proofs.Members.Derivation

/-! # Brackets in struct bodies

Whatever the grammar derives closes its parentheses and brackets, and holds braces only in whole
groups. So the brace that ends a struct body is the one that matches the brace before it. -/

namespace CSurvey

/-- Whether the second kind closes what the first one opens, in parentheses or brackets. -/
def Token.Kind.encloses : Token.Kind → Token.Kind → Bool
  | .delimiter .leftParen, .delimiter .rightParen => true
  | .delimiter .leftBracket, .delimiter .rightBracket => true
  | _, _ => false

theorem Token.Kind.encloses_iff {o c : Token.Kind} :
    o.encloses c = true ↔
      o = .delimiter .leftParen ∧ c = .delimiter .rightParen ∨
        o = .delimiter .leftBracket ∧ c = .delimiter .rightBracket := by
  unfold encloses
  split <;> simp_all

/-- Whether a kind opens or closes anything. -/
def Token.Kind.isBracket : Token.Kind → Bool
  | .delimiter .leftParen | .delimiter .rightParen | .delimiter .leftBracket
  | .delimiter .rightBracket | .delimiter .leftBrace | .delimiter .rightBrace => true
  | _ => false

/-- Whether a kind is neither a bracket nor a semicolon nor the end. -/
def Token.Kind.isPlain (k : Token.Kind) : Bool :=
  !k.isBracket && k != .delimiter .semicolon && k != .endOfInput

theorem ClosingWords.append {m n : Nat} {ws us : List Word} (hws : ClosingWords m ws)
    (hus : ClosingWords n us) : ClosingWords (m + n) (ws ++ us) := by
  induction hws with
  | done => simpa using hus
  | @opened depth w ws hw _ ih =>
      rw [show depth + 1 + n = depth + n + 1 by omega]
      exact .opened hw (by rwa [show depth + n + 2 = depth + 2 + n by omega])
  | @closed depth w ws hw _ ih =>
      rw [show depth + 1 + n = depth + n + 1 by omega]
      exact .closed hw ih
  | @inside depth w ws hleft hright hend _ ih =>
      rw [show depth + 1 + n = depth + n + 1 by omega]
      exact .inside hleft hright hend (by rwa [show depth + n + 1 = depth + 1 + n by omega])

/-- Words that close their parentheses and brackets, with braces only in whole groups and no
semicolon outside them. -/
inductive EvenWords : List Word → Prop where
  | none : EvenWords []
  | plain {w : Word} {us : List Word} (hw : w.1.isPlain = true) :
      EvenWords us → EvenWords (w :: us)
  | enclosed {o c : Word} {ws us : List Word} (hoc : o.1.encloses c.1 = true) :
      EvenWords ws → EvenWords us → EvenWords (o :: (ws ++ c :: us))
  | group {o : Word} {ws us : List Word} (ho : o.1 = .delimiter .leftBrace)
      (hws : ClosingWords 1 ws) : EvenWords us → EvenWords (o :: (ws ++ us))

namespace EvenWords

variable {w o c : Word} {ws us : List Word}

theorem append (hws : EvenWords ws) (hus : EvenWords us) : EvenWords (ws ++ us) := by
  induction hws with
  | none => exact hus
  | plain hw _ ih => exact .plain hw ih
  | enclosed hoc hin _ _ ih =>
      rw [List.cons_append, List.append_assoc, List.cons_append]
      exact .enclosed hoc hin ih
  | group ho hws _ ih =>
      rw [List.cons_append, List.append_assoc]
      exact .group ho hws ih

theorem single (hw : w.1.isPlain = true) : EvenWords [w] :=
  .plain hw .none

theorem ofPlain (hws : ∀ w ∈ ws, w.1.isPlain = true) : EvenWords ws := by
  induction ws with
  | nil => exact .none
  | cons w ws ih =>
      obtain ⟨hw, hws⟩ := List.forall_mem_cons.mp hws
      exact .plain hw (ih hws)

theorem parens (ho : o.1 = .delimiter .leftParen) (hc : c.1 = .delimiter .rightParen)
    (hws : EvenWords ws) (hus : EvenWords us) : EvenWords (o :: (ws ++ c :: us)) :=
  .enclosed (by rw [ho, hc]; rfl) hws hus

theorem brackets (ho : o.1 = .delimiter .leftBracket) (hc : c.1 = .delimiter .rightBracket)
    (hws : EvenWords ws) (hus : EvenWords us) : EvenWords (o :: (ws ++ c :: us)) :=
  .enclosed (by rw [ho, hc]; rfl) hws hus

/-- Such words do not begin by closing anything. -/
theorem head_ne (h : EvenWords (w :: ws)) : w.1 ≠ .delimiter .rightParen := by
  rintro hw
  cases h with
  | plain hplain => simp [hw, Token.Kind.isPlain, Token.Kind.isBracket] at hplain
  | enclosed hoc _ _ => simp [hw, Token.Kind.encloses] at hoc
  | group ho _ _ => simp [hw] at ho

theorem tail (h : EvenWords (w :: ws)) (hw : w.1.isPlain = true) : EvenWords ws := by
  cases h with
  | plain _ h => exact h
  | enclosed hoc _ _ =>
      rcases Token.Kind.encloses_iff.mp hoc with ⟨ho, -⟩ | ⟨ho, -⟩
      · simp [ho, Token.Kind.isPlain, Token.Kind.isBracket] at hw
      · simp [ho, Token.Kind.isPlain, Token.Kind.isBracket] at hw
  | group ho _ _ => simp [ho, Token.Kind.isPlain, Token.Kind.isBracket] at hw

/-- Inside braces such words close nothing. -/
theorem closing {depth : Nat} (h : EvenWords ws) (hus : ClosingWords (depth + 1) us) :
    ClosingWords (depth + 1) (ws ++ us) := by
  induction h generalizing us with
  | none => exact hus
  | plain hw _ ih =>
      refine .inside ?_ ?_ ?_ (ih hus)
      · rintro hleft
        simp [hleft, Token.Kind.isPlain, Token.Kind.isBracket] at hw
      · rintro hright
        simp [hright, Token.Kind.isPlain, Token.Kind.isBracket] at hw
      · rintro hend
        simp [hend, Token.Kind.isPlain] at hw
  | @enclosed o c vs us' hoc _ _ ihin ih =>
      rw [List.cons_append, List.append_assoc, List.cons_append]
      have hnone : ∀ w ∈ [o, c], w.1 ≠ .delimiter .leftBrace ∧ w.1 ≠ .delimiter .rightBrace ∧
          w.1 ≠ .endOfInput := by
        rcases Token.Kind.encloses_iff.mp hoc with ⟨ho, hc⟩ | ⟨ho, hc⟩
        · simp [ho, hc]
        · simp [ho, hc]
      obtain ⟨holeft, horight, hoend⟩ := hnone o (by simp)
      obtain ⟨hcleft, hcright, hcend⟩ := hnone c (by simp)
      exact .inside holeft horight hoend (ihin (.inside hcleft hcright hcend (ih hus)))
  | group ho hvs _ ih =>
      rw [List.cons_append, List.append_assoc]
      refine .opened ho ?_
      rw [show depth + 2 = 1 + (depth + 1) by omega]
      exact hvs.append (ih hus)

end EvenWords

/-! ## Types and expressions -/

theorem Token.Kind.isPlain_of_isTypeModifier {k : Token.Kind} (h : k.isTypeModifier = true) :
    k.isPlain = true := by
  cases k with
  | keyword word => rfl
  | _ => contradiction

theorem Token.Kind.isPlain_of_isBaseType {k : Token.Kind} (h : k.isBaseType = true) :
    k.isPlain = true := by
  cases k with
  | keyword word => rfl
  | _ => contradiction

theorem NamesType.even {Body : List Word → Prop} {type : String} {ws : List Word}
    (hbody : ∀ body, Body body → EvenWords body) (h : NamesType Body type ws) : EvenWords ws := by
  induction h with
  | plain h =>
      obtain ⟨hmodifiers, hbase, -⟩ := h
      apply EvenWords.append
      · apply EvenWords.ofPlain
        intro w hw
        exact Token.Kind.isPlain_of_isTypeModifier (hmodifiers w hw)
      · cases hbase with
        | base hw => exact .single (Token.Kind.isPlain_of_isBaseType hw)
        | struct hk htag hwords =>
            exact .plain (by rw [hk]; rfl) (.plain (by rw [htag]; rfl) (hbody _ hwords))
        | absent => exact .none
  | star hw _ ih => exact ih.append (.single (by rw [hw]; rfl))

section Names

variable {Names : String → List Word → Prop} {ws : List Word}
  (hnames : ∀ type ts, Names type ts → EvenWords ts)

theorem Separated.even {lists : List (List Word)} (h : Separated lists ws)
    (hall : ∀ vs ∈ lists, EvenWords vs) : EvenWords ws := by
  induction h with
  | none => exact .none
  | one vs => exact hall vs (by simp)
  | @more c vs vs' us rest hcomma _ ih =>
      refine (hall vs (by simp)).append (.plain (by rw [hcomma]; rfl) (ih ?_))
      exact fun ws hws => hall ws (List.mem_cons_of_mem _ hws)

include hnames

theorem Derives.even {tier : Tier} {t : Node} (h : Derives Names tier t ws) : EvenWords ws := by
  induction h with
  | number hw => exact .single (by rw [hw]; rfl)
  | @strings w ws h =>
      refine .ofPlain fun v hv => ?_
      rw [h v hv]
      rfl
  | character hw => exact .single (by rw [hw]; rfl)
  | identifier hw => exact .single (by rw [hw]; rfl)
  | parens ho hc _ ih => exact .parens ho hc ih .none
  | ofPrimary _ ih => exact ih
  | index ho hc _ _ iha ihi => exact iha.append (.brackets ho hc ihi .none)
  | call ho hc hgs _ _ ihf ih =>
      refine ihf.append (.parens ho hc (hgs.even ?_) .none)
      rintro vs hvs
      obtain ⟨p, hp, rfl⟩ := List.mem_map.mp hvs
      exact ih p hp
  | member hop hname _ ih =>
      exact ih.append (.plain (by rw [hop]; rfl) (.single (by rw [hname]; rfl)))
  | pointerMember hop hname _ ih =>
      exact ih.append (.plain (by rw [hop]; rfl) (.single (by rw [hname]; rfl)))
  | update hop _ _ ih => exact ih.append (.single (by rw [hop]; rfl))
  | ofOperand _ ih => exact ih
  | signed hop _ _ ih => exact .plain (by rw [hop]; rfl) ih
  | updated hop _ _ ih => exact .plain (by rw [hop]; rfl) ih
  | sizeOfType hk ho hc ht =>
      exact .plain (by rw [hk]; rfl) (.parens ho hc (hnames _ _ ht) .none)
  | sizeOf hk _ _ ih => exact .plain (by rw [hk]; rfl) ih
  | cast ho hc ht _ ih => exact .parens ho hc (hnames _ _ ht) ih
  | ofUnary _ ih => exact ih
  | ofTighter _ ih => exact ih
  | binary hop _ _ iha ihb =>
      obtain ⟨o, ho, -⟩ := Grammar.exists_operator_of_isOfLevel hop
      exact iha.append (.plain (by rw [ho]; rfl) ihb)
  | ofBinary _ ih => exact ih
  | conditional hq hd _ _ _ iha ihb ihc =>
      exact iha.append (.plain (by rw [hq]; rfl) (ihb.append (.plain (by rw [hd]; rfl) ihc)))
  | ofConditional _ ih => exact ih
  | assignment hop _ _ iha ihb =>
      obtain ⟨o, ho⟩ := Token.Kind.exists_operator_of_isAssignment hop
      exact iha.append (.plain (by rw [ho]; rfl) ihb)

theorem SizeWords.even (h : SizeWords Names ws) : EvenWords ws := by
  induction h with
  | none => exact .none
  | absent ho hc _ ih => exact .brackets ho hc .none ih
  | size ho hc hes _ ih => exact .brackets ho hc (hes.even hnames) ih

theorem ParameterWords.even (h : ParameterWords Names ws) : EvenWords ws := by
  cases h with
  | unnamed hts hsizes => exact (hnames _ _ hts).append (hsizes.even hnames)
  | named hts hname hsizes =>
      exact (hnames _ _ hts).append (.plain (by rw [hname]; rfl) (hsizes.even hnames))

theorem ParametersWords.even (h : ParametersWords Names ws) : EvenWords ws := by
  induction h with
  | further ha hb hc => exact .ofPlain (by simp [ha, hb, hc]; rfl)
  | last h => exact h.even hnames
  | more hc h _ ih => exact (h.even hnames).append (.plain (by rw [hc]; rfl) ih)

omit hnames in
theorem PointerWords.even (h : PointerWords ws) : EvenWords ws := by
  induction h with
  | none => exact .none
  | star hw hqualifiers _ ih =>
      refine .plain (by rw [hw]; rfl) (.append (.ofPlain fun q hq => ?_) ih)
      have hqualifier := hqualifiers q hq
      revert hqualifier
      cases q.1 with
      | keyword word => exact fun _ => rfl
      | _ => exact fun h => by contradiction

theorem DeclaratorWords.even (h : DeclaratorWords Names ws) : EvenWords ws := by
  cases h with
  | object hstars hname hsizes =>
      exact hstars.even.append (.plain (by rw [hname]; rfl) (hsizes.even hnames))
  | procedure hstars hname ho hc =>
      exact hstars.even.append (.plain (by rw [hname]; rfl) (.parens ho hc .none .none))
  | function hstars hname ho hc hparams =>
      exact hstars.even.append
        (.plain (by rw [hname]; rfl) (.parens ho hc (hparams.even hnames) .none))

/-- A line of members ends at its first semicolon. -/
theorem MemberWords.even {n : Nat} (h : MemberWords Names n ws) :
    ∃ us stop, ws = us ++ [stop] ∧ EvenWords us ∧ stop.1 = .delimiter .semicolon := by
  obtain ⟨hbase, -, hall, hwords, hstop⟩ := h
  rename_i base stop declarators us
  refine ⟨base :: us, stop, rfl, .plain ?_ (hwords.even fun vs hvs => (hall vs hvs).even hnames),
    hstop⟩
  revert hbase
  cases base.1 with
  | keyword word => exact fun _ => rfl
  | _ => exact fun h => by contradiction

/-- Nothing in a struct body closes the braces around it. -/
theorem BodyWords.closing {n depth : Nat} {us : List Word} (h : BodyWords Names n ws)
    (hus : ClosingWords (depth + 1) us) : ClosingWords (depth + 1) (ws ++ us) := by
  induction h with
  | none => exact hus
  | members h _ ih =>
      obtain ⟨vs, stop, rfl, hvs, hstop⟩ := h.even hnames
      rw [List.append_assoc, List.append_assoc]
      exact hvs.closing (.inside (by simp [hstop]) (by simp [hstop]) (by simp [hstop]) ih)
  | group ho hwords _ ih =>
      rw [List.cons_append, List.append_assoc]
      refine .opened ho ?_
      rw [show depth + 2 = 1 + (depth + 1) by omega]
      exact hwords.append ih
  | loose hw _ ih =>
      refine .inside ?_ ?_ ?_ ih
      · rintro hleft
        simp [hleft, Token.Kind.isLoose] at hw
      · rintro hright
        simp [hright, Token.Kind.isLoose] at hw
      · rintro hend
        simp [hend, Token.Kind.isLoose] at hw

end Names

theorem StructWords.even {ws : List Word} (h : StructWords ws) : EvenWords ws := by
  cases h with
  | absent => exact .none
  | braces ho _ _ hclosing => simpa using EvenWords.group ho hclosing .none

end CSurvey
