import CSurvey.Proofs.Expression.Soundness
import CSurvey.Proofs.Grammar.Runs

/-! # What is derived is read

Words that an expression is derived from are read as that expression, where no token behind them
goes on with it and the depth that is left is no less than the number of the words. -/

namespace CSurvey

/-- Whether a token behind operands with operators up to the level between them belongs to these. -/
def goesOnUpTo (level : Nat) (k : Token.Kind) : Bool :=
  k = .string || Grammar.continuesOperand k ||
    (List.range level).any fun l => Grammar.isOfLevel (l + 1) k

/-- Whether a token behind a construct of the tier belongs to it too. -/
def Tier.goesOn : Tier → Token.Kind → Bool
  | .primary, k => k = .string
  | .operand, k => goesOnUpTo 0 k
  | .unary, k => goesOnUpTo 0 k
  | .binary level, k => goesOnUpTo level k
  | .conditional, k => goesOnUpTo 10 k || k = .operator .question
  | .expression, k => goesOnUpTo 10 k || k = .operator .question || k.isAssignment

/-- How many levels of depth fewer than words a construct of the tier takes. -/
def Tier.spare : Tier → Nat
  | .expression => 0
  | .primary | .operand | .unary | .binary _ | .conditional => 1

namespace Grammar

/-- The state stands before the words, which nothing goes on with, and has room for them. -/
structure State.Before (s : State) (tier : Tier) (ws rest : List Word) : Prop where
  script : s.script = ws ++ rest
  rest : tier.goesOn (headKind rest) = false
  room : s.depth + ws.length ≤ s.limit + tier.spare

/-- The tree and the state are those behind the words. -/
structure State.Behind (s : State) (tier : Tier) (t : Node) (ws rest : List Word) (u : Node)
    (v : State) : Prop where
  tree : u.unplaced = t
  past : s.Past rest (ws.length - tier.spare) v

/-- The reader reads the tree from the words. -/
def Accepts (p : Parse Node) (tier : Tier) (t : Node) (ws : List Word) : Prop :=
  ∀ ⦃s : State⦄ ⦃rest : List Word⦄, s.Before tier ws rest →
    ∃ u v, p s = .ok u v ∧ s.Behind tier t ws rest u v

variable {r : Rules} {s v : State} {t u : Node} {ws rest : List Word} {w : Word}

theorem State.Before.front {tier : Tier} (h : s.Before tier (w :: ws) rest) : s.front.word = w :=
  s.front_word h.script

theorem State.Before.drop {tier : Tier} (h : s.Before tier (w :: ws) rest) :
    s.dropFront.script = ws ++ rest :=
  s.script_dropFront h.script

/-- Behind a single word that is taken. -/
theorem State.Before.behind_single {tier : Tier} (h : s.Before tier [w] rest)
    (hu : u.unplaced = t) : s.Behind tier t [w] rest u s.dropFront :=
  ⟨hu, (State.Past.dropFront h.script).mono (Nat.zero_le _)⟩

/-! ## Primaries -/

theorem accepts_number {x : Binary64} (hw : w.1 = .number) (hx : Numeral.read w.2 = some x) :
    Accepts (primary r) .primary ⟨.number, some (.number x), [], .start⟩ [w] := by
  intro s rest hs
  obtain rfl := hs.front
  have hk : s.front.kind = .number := hw
  have hx' : Numeral.read s.front.text = some x := hx
  have hrun : primary r s =
      .ok ⟨.number, some (.number x), [], s.front.location⟩ s.dropFront := by
    simp only [primary, bind_apply, front_apply, takeFront_apply, pure_apply, hk, hx']
  exact ⟨_, _, hrun, hs.behind_single (by simp)⟩

theorem accepts_character (hw : w.1 = .character) :
    Accepts (primary r) .primary (.texted .character (unquoted w.2) .start []) [w] := by
  intro s rest hs
  obtain rfl := hs.front
  have hk : s.front.kind = .character := hw
  have hrun : primary r s =
      .ok (.texted .character (unquoted s.front.text) s.front.location []) s.dropFront := by
    simp only [primary, bind_apply, front_apply, takeFront_apply, pure_apply, hk]
  exact ⟨_, _, hrun, hs.behind_single (by simp)⟩

theorem accepts_identifier (hw : w.1 = .identifier) :
    Accepts (primary r) .primary (.texted .identifier w.2 .start []) [w] := by
  intro s rest hs
  obtain rfl := hs.front
  have hk : s.front.kind = .identifier := hw
  have hrun : primary r s =
      .ok (.texted .identifier s.front.text s.front.location []) s.dropFront := by
    simp only [primary, bind_apply, front_apply, takeFront_apply, pure_apply, hk]
  exact ⟨_, _, hrun, hs.behind_single (by simp)⟩

/-- One round of joining string literals. -/
def joinRound (text : String) : Parse (Turn String) := do
  if (← frontKind) = .string then
    let token ← takeFront
    pure (.again (text ++ unquoted token.text))
  else pure (.done text)

/-- String literals are joined as long as one stands next. -/
theorem rounds_joinRound {fuel : List Token} (text : String) (hs : s.script = ws ++ rest)
    (hws : ∀ w ∈ ws, w.1 = .string) (hrest : headKind rest ≠ .string)
    (hfuel : s.rest.length ≤ fuel.length) :
    ∃ v, rounds joinRound fuel text s =
        .ok (text ++ String.join (ws.map fun w => unquoted w.2)) v ∧ s.Past rest 0 v := by
  induction ws generalizing s text fuel with
  | nil =>
      have hk : s.front.kind ≠ .string := by rwa [front_kind_of_script hs]
      have hround : joinRound text s = .ok (.done text) s := by
        simp only [joinRound, bind_apply, frontKind_apply, if_neg hk, pure_apply]
      exact ⟨s, by simpa using rounds_done hround fuel, .refl hs⟩
  | cons w ws ih =>
      have hk : s.front.kind = .string := by
        rw [front_kind_of_script hs]
        exact hws w (List.mem_cons_self ..)
      have hw := s.front_word hs
      have hround : joinRound text s =
          .ok (.again (text ++ unquoted w.2)) s.dropFront := by
        simp only [joinRound, bind_apply, frontKind_apply, if_pos hk, takeFront_apply, pure_apply,
          ← hw, Token.word_snd]
      obtain ⟨x, fuel, rfl, hfuel'⟩ := State.exists_round hs hfuel
      obtain ⟨v, hv, hpast⟩ := ih (text ++ unquoted w.2) (s.script_dropFront hs)
        (fun w hw => hws w (List.mem_cons_of_mem _ hw)) hfuel'
      refine ⟨v, ?_, (State.Past.dropFront hs).trans hpast⟩
      rw [rounds_again hround, hv]
      simp [String.append_assoc]

theorem accepts_strings (h : ∀ v ∈ w :: ws, v.1 = .string) :
    Accepts (primary r) .primary
      (.texted .string (String.join ((w :: ws).map fun v => unquoted v.2)) .start [])
      (w :: ws) := by
  intro s rest hs
  obtain rfl := hs.front
  have hk : s.front.kind = .string := h _ (List.mem_cons_self ..)
  have hrest : headKind rest ≠ .string := by simpa [Tier.goesOn] using hs.rest
  obtain ⟨v, hv, hpast⟩ := rounds_joinRound (unquoted s.front.text) hs.drop
    (fun w hw => h w (List.mem_cons_of_mem _ hw)) hrest (Nat.le_refl s.dropFront.rest.length)
  have hrun : primary r s = .ok (.texted .string (unquoted s.front.text ++
      String.join (ws.map fun w => unquoted w.2)) s.front.location []) v := by
    have hmore : moreStrings (unquoted s.front.text) s.dropFront = .ok _ v := hv
    simp only [primary, bind_apply, front_apply, takeFront_apply, pure_apply, hk, hmore]
  refine ⟨_, _, hrun, by simp, ?_⟩
  exact ((State.Past.dropFront hs.script).trans hpast).mono (Nat.zero_le _)

/-- No token that closes an expression goes on with one. -/
theorem goesOn_expression_of_delimiter {d : Token.Delimiter}
    (hd : d ≠ .leftParen ∧ d ≠ .leftBracket ∧ d ≠ .dot) :
    Tier.expression.goesOn (.delimiter d) = false := by
  cases d <;> simp_all [Tier.goesOn, goesOnUpTo, continuesOperand, isOfLevel,
    Token.Kind.isAssignment]

theorem accepts_parens {o c : Word} (ho : o.1 = .delimiter .leftParen)
    (hc : c.1 = .delimiter .rightParen) (h : Accepts r.expression .expression t ws) :
    Accepts (primary r) .primary t (o :: (ws ++ [c])) := by
  intro s rest hs
  have hk : s.front.kind = .delimiter .leftParen := front_kind_of_cons hs.script ho
  have hdrop : s.dropFront.script = ws ++ (c :: rest) := by simpa using hs.drop
  have hroom := hs.room
  simp only [List.length_cons, List.length_append, List.length_nil, Tier.spare] at hroom
  have hbefore : s.dropFront.Before .expression ws (c :: rest) := by
    refine ⟨hdrop, ?_, ?_⟩
    · rw [headKind_cons, hc]
      exact goesOn_expression_of_delimiter (by simp)
    · show s.depth + ws.length ≤ s.limit + 0
      omega
  obtain ⟨u, v, hu, htree, hpast⟩ := h hbefore
  have hclose := require_of_script .afterExpression hpast.script hc
  have hrun : primary r s = .ok u v.dropFront := by
    simp only [primary, bind_apply, front_apply, takeFront_apply, pure_apply, hk, hu, requireMark,
      hclose]
  refine ⟨u, _, hrun, htree, ?_⟩
  refine ((State.Past.dropFront hs.script).trans (hpast.trans (.dropFront hpast.script))).mono ?_
  simp [Tier.spare]

/-! ## Operands that grow by rounds -/

/-- The rounds make the longer tree from the one that the reader begins with. -/
def Extends (p : Parse Node) (round : Node → Parse (Turn Node)) (tier : Tier) (t : Node)
    (ws : List Word) : Prop :=
  ∀ ⦃s : State⦄ ⦃rest : List Word⦄, s.Before tier ws rest →
    ∃ first w u v, p s = .ok first w ∧ s.Behind tier t ws rest u v ∧
      ∀ fuel : List Token, w.rest.length ≤ fuel.length →
        ∃ fuel' : List Token, v.rest.length ≤ fuel'.length ∧
          rounds round fuel first w = rounds round fuel' u v

/-- A round that takes the words makes the second tree from the first one. -/
def Continues (round : Node → Parse (Turn Node)) (tier : Tier) (t t' : Node) (ws : List Word) :
    Prop :=
  ∀ ⦃s : State⦄ ⦃rest : List Word⦄ ⦃u : Node⦄, u.unplaced = t → s.script = ws ++ rest →
    tier.goesOn (headKind rest) = false → s.depth + ws.length ≤ s.limit →
    ∃ u' v, round u s = .ok (.again u') v ∧ u'.unplaced = t' ∧ s.Past rest ws.length v ∧
      v.rest.length ≤ s.dropFront.rest.length

section Rounds

variable {p : Parse Node} {round : Node → Parse (Turn Node)} {tier outer : Tier} {t' : Node}
  {ws' : List Word}

/-- No round is needed for what the reader takes by itself. -/
theorem extends_of_accepts (h : Accepts p tier t ws) : Extends p round tier t ws := by
  intro s rest hs
  obtain ⟨u, v, hu, hbehind⟩ := h hs
  exact ⟨u, v, u, v, hu, hbehind, fun fuel hfuel => ⟨fuel, hfuel, rfl⟩⟩

theorem Extends.step (h : Extends p round tier t ws) (hround : Continues round tier t t' (w :: ws'))
    (hspare : tier.spare = 1) (hws : ws ≠ []) (hhead : tier.goesOn w.1 = false) :
    Extends p round tier t' (ws ++ w :: ws') := by
  intro s rest hs
  have hroom := hs.room
  have hlength := List.length_pos_iff.mpr hws
  rw [List.length_append, hspare] at hroom
  have hbefore : s.Before tier ws (w :: ws' ++ rest) := by
    refine ⟨by simpa using hs.script, hhead, ?_⟩
    omega
  obtain ⟨first, x, u, v, hfirst, hbehind, hrounds⟩ := h hbefore
  have hdepth := hbehind.past.depth
  have hlimit := hbehind.past.limit
  rw [hspare] at hdepth
  obtain ⟨u', v', hu', htree, hpast, hshorter⟩ :=
    hround hbehind.tree hbehind.past.script hs.rest (by omega)
  refine ⟨first, x, u', v', hfirst, ⟨htree, (hbehind.past.trans hpast).mono ?_⟩, ?_⟩
  · rw [List.length_append, hspare]
    omega
  · intro fuel hfuel
    obtain ⟨fuel, hfuel, heq⟩ := hrounds fuel hfuel
    obtain ⟨y, fuel, rfl, hfuel'⟩ := State.exists_round hbehind.past.script hfuel
    exact ⟨fuel, by omega, by rw [heq, rounds_again hu']⟩

/-- The rounds end where nothing goes on. -/
theorem Extends.accepts (h : Extends p round tier t ws)
    (hspare : outer.spare = tier.spare)
    (hinner : ∀ k, outer.goesOn k = false → tier.goesOn k = false)
    (hdone : ∀ (u : Node) (s : State), outer.goesOn s.front.kind = false →
      round u s = .ok (.done u) s) :
    Accepts (p >>= loop round) outer t ws := by
  intro s rest hs
  have hbefore : s.Before tier ws rest := by
    refine ⟨hs.script, hinner _ hs.rest, ?_⟩
    rw [← hspare]
    exact hs.room
  obtain ⟨first, x, u, v, hfirst, hbehind, hrounds⟩ := h hbefore
  obtain ⟨fuel, -, heq⟩ := hrounds x.rest (Nat.le_refl _)
  have hfront : outer.goesOn v.front.kind = false := by
    rw [front_kind_of_script hbehind.past.script]
    exact hs.rest
  refine ⟨u, v, ?_, hbehind.tree, ?_⟩
  · rw [bind_apply, hfirst]
    exact heq.trans (rounds_done (hdone u v hfront) fuel)
  · rw [hspare]
    exact hbehind.past

end Rounds

/-! ## What stands behind operands -/

/-- One round of lengthening an operand. -/
def operandRound (r : Rules) (operand : Node) : Parse (Turn Node) := do
  if continuesOperand (← frontKind) then
    goDeeper
    let longer ← continued r operand
    pure (.again longer)
  else pure (.done operand)

theorem operandRound_of_continued {u' : Node} (hk : continuesOperand s.front.kind = true)
    (hroom : s.depth < s.limit)
    (h : continued r u s.deeper = .ok u' v) :
    operandRound r u s = .ok (.again u') v := by
  simp only [operandRound, bind_apply, frontKind_apply, if_pos hk, goDeeper_apply hroom, h,
    pure_apply]

theorem operandRound_done (u : Node) (s : State)
    (hk : Tier.operand.goesOn s.front.kind = false) :
    operandRound r u s = .ok (.done u) s := by
  have hk : ¬continuesOperand s.front.kind = true := by
    simp only [Tier.goesOn, goesOnUpTo, Bool.or_eq_false_iff] at hk
    simp [hk]
  simp only [operandRound, bind_apply, frontKind_apply, if_neg hk, pure_apply]

theorem continues_update {a : Node} {op : Word} {sign : Token.Operator}
    (hop : op.1 = .operator sign) (hsign : sign.isUpdate = true) :
    Continues (operandRound r) .primary a (.texted .update op.2 .start [a]) [op] := by
  intro s rest u hu hs _ hroom
  have hk : s.front.kind = .operator sign := front_kind_of_cons hs hop
  have hword := s.front_word hs
  have hrun : continued r u s.deeper =
      .ok (.texted .update s.front.text s.front.location [u]) s.dropFront.deeper := by
    cases sign with
    | increment =>
        simp only [continued, bind_apply, frontKind_apply, State.front_deeper, hk]
        rfl
    | decrement =>
        simp only [continued, bind_apply, frontKind_apply, State.front_deeper, hk]
        rfl
    | _ => contradiction
  have hcontinues : continuesOperand s.front.kind = true := by
    rw [hk]
    cases sign <;> first | rfl | contradiction
  have hpast := (State.Past.dropFront hs).trans (.deeper (s.script_dropFront hs))
  refine ⟨_, _, operandRound_of_continued hcontinues hroom hrun, ?_, hpast, Nat.le_refl _⟩
  rw [Node.unplaced_texted, ← hword, ← hu]
  rfl

/-- The two forms of members differ in their operator alone. -/
theorem continues_memberOf {a : Node} {op name : Word} {k : Token.Kind} {kind : Node.Kind}
    (hop : op.1 = k) (hname : name.1 = .identifier) (hk : continuesOperand k = true)
    (hrun : ∀ (s : State) (u : Node), s.front.kind = k → continued r u s = memberOf kind u s) :
    Continues (operandRound r) .primary a
      (.texted kind op.2 .start [a, .texted .identifier name.2 .start []]) [op, name] := by
  intro s rest u hu hs _ hroom
  have hfront : s.front.kind = k := front_kind_of_cons hs hop
  have hdrop := s.script_dropFront hs
  have hword := s.front_word hs
  have hword' := State.front_word hdrop
  simp only [List.length_cons, List.length_nil] at hroom
  have hmember : continued r u s.deeper =
      .ok (.texted kind s.front.text s.front.location
          [u, .texted .identifier s.dropFront.front.text s.dropFront.front.location []])
        s.dropFront.dropFront.deeper := by
    rw [hrun s.deeper u hfront]
    have hdeep : s.dropFront.deeper.script = name :: rest := hdrop
    have hrequire := require_of_script (.after s.front.text) hdeep hname
    simp only [memberOf, bind_apply, takeFront_apply, State.front_deeper, State.dropFront_deeper,
      hrequire, pure_apply]
  have hcontinues : continuesOperand s.front.kind = true := by rw [hfront, hk]
  have hpast := (State.Past.dropFront hdrop).trans (.deeper (State.script_dropFront hdrop))
  refine ⟨_, _, operandRound_of_continued hcontinues (by omega) hmember, ?_, ?_, hpast.length⟩
  · rw [Node.unplaced_texted, ← hword, ← hword', ← hu]
    simp
  · exact ((State.Past.dropFront hs).trans hpast).mono (by simp)

theorem continues_index {a i : Node} {is : List Word} {o c : Word}
    (ho : o.1 = .delimiter .leftBracket) (hc : c.1 = .delimiter .rightBracket)
    (hi : Accepts r.expression .expression i is) :
    Continues (operandRound r) .primary a (.texted .index "[]" .start [a, i])
      (o :: (is ++ [c])) := by
  intro s rest u hu hs _ hroom
  have hfront : s.front.kind = .delimiter .leftBracket := front_kind_of_cons hs ho
  simp only [List.length_cons, List.length_append, List.length_nil] at hroom
  have hdrop : s.dropFront.script = is ++ (c :: rest) := by simpa using s.script_dropFront hs
  have hbefore : s.dropFront.deeper.Before .expression is (c :: rest) := by
    refine ⟨hdrop, ?_, ?_⟩
    · rw [headKind_cons, hc]
      exact goesOn_expression_of_delimiter (by simp)
    · show s.depth + 1 + is.length ≤ s.limit + 0
      omega
  obtain ⟨u', v, hu', htree, hpast⟩ := hi hbefore
  have hclose := require_of_script .afterArrayIndex hpast.script hc
  have hrun : continued r u s.deeper =
      .ok (.texted .index "[]" s.front.location [u, u']) v.dropFront := by
    simp only [continued, bind_apply, frontKind_apply, State.front_deeper, hfront, takeFront_apply,
      State.dropFront_deeper, hu', requireMark, hclose, pure_apply]
  have hcontinues : continuesOperand s.front.kind = true := by
    rw [hfront]
    rfl
  have hpast' := ((State.Past.deeper hdrop).trans hpast).trans (.dropFront hpast.script)
  refine ⟨_, _, operandRound_of_continued hcontinues (by omega) hrun, ?_, ?_, hpast'.length⟩
  · simp [hu, htree]
  · refine ((State.Past.dropFront hs).trans hpast').mono ?_
    simp only [List.length_cons, List.length_append, List.length_nil, Tier.spare]
    omega

/-! ## Arguments -/

/-- One round of reading arguments. -/
def argumentRound (r : Rules) (found : List Node) : Parse (Turn (List Node)) := do
  let next ← r.expression
  if ← accept (.delimiter .comma) then pure (.again (next :: found))
  else pure (.done (next :: found))

theorem argumentRound_of_ok {found : List Node} (h : r.expression s = .ok u v) :
    argumentRound r found s =
      if v.front.kind = .delimiter .comma then .ok (.again (u :: found)) v.dropFront
      else .ok (.done (u :: found)) v := by
  rw [argumentRound, bind_apply, h]
  exact accept_ite_apply _ _ _ v

/-- Expressions with commas between them are read as that many arguments. -/
theorem rounds_argumentRound {given : List (Node × List Word)} {gs : List Word}
    {fuel : List Token} (found : List Node) (hgs : Separated (given.map Prod.snd) gs)
    (hne : given ≠ []) (hall : ∀ p ∈ given, Accepts r.expression .expression p.1 p.2)
    (hs : s.script = gs ++ rest) (hrest : headKind rest = .delimiter .rightParen)
    (hroom : s.depth + gs.length ≤ s.limit) (hfuel : s.rest.length ≤ fuel.length) :
    ∃ (us : List Node) (v : State),
      rounds (argumentRound r) fuel found s = .ok (us.reverse ++ found) v ∧
      us.map Node.unplaced = given.map Prod.fst ∧ s.Past rest gs.length v := by
  induction given generalizing s gs found fuel with
  | nil => contradiction
  | cons p given ih =>
      have hclose : Tier.expression.goesOn (.delimiter .rightParen) = false :=
        goesOn_expression_of_delimiter (by simp)
      cases given with
      | nil =>
          obtain rfl : gs = p.2 := by
            cases hgs
            rfl
          obtain ⟨u, v, hu, htree, hpast⟩ :=
            hall p (List.mem_cons_self ..) ⟨hs, by rw [hrest, hclose], hroom⟩
          have hk : v.front.kind ≠ .delimiter .comma := by
            rw [front_kind_of_script hpast.script, hrest]
            simp
          have hround : argumentRound r found s = .ok (.done (u :: found)) v := by
            rw [argumentRound_of_ok hu, if_neg hk]
          exact ⟨[u], v, rounds_done hround fuel, by simp [htree], hpast⟩
      | cons p' given =>
          cases hgs with
          | @more c ws vs us' _ hcomma hus =>
              have hs' : s.script = p.2 ++ (c :: (us' ++ rest)) := by simpa using hs
              have hcommaRest : Tier.expression.goesOn (.delimiter .comma) = false :=
                goesOn_expression_of_delimiter (by simp)
              simp only [List.length_append, List.length_cons] at hroom
              obtain ⟨u, v, hu, htree, hpast⟩ := hall p (List.mem_cons_self ..)
                ⟨hs', by rw [headKind_cons, hcomma, hcommaRest],
                  by show s.depth + p.2.length ≤ s.limit + 0; omega⟩
              have hk : v.front.kind = .delimiter .comma := front_kind_of_cons hpast.script hcomma
              have hround : argumentRound r found s =
                  .ok (.again (u :: found)) v.dropFront := by
                rw [argumentRound_of_ok hu, if_pos hk]
              have hpast' := hpast.trans (.dropFront hpast.script)
              have hdepth := hpast'.depth
              have hlimit := hpast'.limit
              simp only [Tier.spare] at hdepth
              obtain ⟨x, fuel, rfl, hfuel'⟩ : ∃ x fuel', fuel = x :: fuel' ∧
                  v.dropFront.rest.length ≤ fuel'.length :=
                State.exists_round hpast.script (Nat.le_trans hpast.length hfuel)
              obtain ⟨us, v', hv', hmap, hpast''⟩ := ih (u :: found) hus (by simp)
                (fun p hp => hall p (List.mem_cons_of_mem _ hp)) hpast'.script
                (by omega) hfuel'
              refine ⟨u :: us, v', ?_, by simp [htree, hmap], ?_⟩
              · rw [rounds_again hround, hv']
                simp
              · refine (hpast'.trans hpast'').mono ?_
                simp only [List.length_append, List.length_cons, Tier.spare]
                omega

/-- Expressions with commas between them and a closing parenthesis behind them are read as
arguments. None of them begins with a closing parenthesis. -/
theorem arguments_of_script {given : List (Node × List Word)} {gs : List Word}
    (hgs : Separated (given.map Prod.snd) gs)
    (hhead : ∀ p ∈ given, ∃ w ws, p.2 = w :: ws ∧ w.1 ≠ .delimiter .rightParen)
    (hall : ∀ p ∈ given, Accepts r.expression .expression p.1 p.2)
    (hs : s.script = gs ++ rest) (hrest : headKind rest = .delimiter .rightParen)
    (hroom : s.depth + gs.length ≤ s.limit) :
    ∃ (us : List Node) (v : State), arguments r s = .ok us v ∧
      us.map Node.unplaced = given.map Prod.fst ∧ s.Past rest gs.length v := by
  cases given with
  | nil =>
      obtain rfl : gs = [] := by
        rw [List.map_nil] at hgs
        cases hgs
        rfl
      have hk : s.front.kind = .delimiter .rightParen := by
        rw [front_kind_of_script hs]
        exact hrest
      refine ⟨[], s, ?_, rfl, .refl hs⟩
      simp only [arguments, bind_apply, frontKind_apply, if_pos hk, pure_apply]
  | cons p given =>
      obtain ⟨w, ws, hp, hw⟩ := hhead p (List.mem_cons_self ..)
      have hgs' : gs.head? = some w := by
        rw [Separated.head hgs (by simp [hp]), hp]
        rfl
      obtain ⟨gs, rfl⟩ := List.head?_eq_some_iff.mp hgs'
      have hk : s.front.kind ≠ .delimiter .rightParen := by
        rw [front_kind_of_script hs]
        exact hw
      obtain ⟨us, v, hv, hmap, hpast⟩ := rounds_argumentRound [] hgs (by simp) hall hs hrest hroom
        (Nat.le_refl s.rest.length)
      have hloop : loop (argumentRound r) [] s = .ok (us.reverse ++ []) v := hv
      refine ⟨us, v, ?_, hmap, hpast⟩
      simp only [arguments, bind_apply, frontKind_apply, if_neg hk]
      show (loop (argumentRound r) [] >>= fun found => pure found.reverse) s = _
      rw [bind_apply, hloop]
      simp [pure_apply]

theorem continues_call {f : Node} {given : List (Node × List Word)} {gs : List Word} {o c : Word}
    (ho : o.1 = .delimiter .leftParen) (hc : c.1 = .delimiter .rightParen)
    (hgs : Separated (given.map Prod.snd) gs)
    (hhead : ∀ p ∈ given, ∃ w ws, p.2 = w :: ws ∧ w.1 ≠ .delimiter .rightParen)
    (hall : ∀ p ∈ given, Accepts r.expression .expression p.1 p.2) :
    Continues (operandRound r) .primary f (.texted .call "()" .start (f :: given.map Prod.fst))
      (o :: (gs ++ [c])) := by
  intro s rest u hu hs _ hroom
  have hfront : s.front.kind = .delimiter .leftParen := front_kind_of_cons hs ho
  simp only [List.length_cons, List.length_append, List.length_nil] at hroom
  have hdrop : s.dropFront.script = gs ++ (c :: rest) := by simpa using s.script_dropFront hs
  have hdeep : s.dropFront.deeper.script = gs ++ (c :: rest) := hdrop
  obtain ⟨us, v, hus, hmap, hpast⟩ := arguments_of_script hgs hhead hall hdeep
    (by rw [headKind_cons, hc]) (by show s.depth + 1 + gs.length ≤ s.limit; omega)
  have hclose := require_of_script .afterArguments hpast.script hc
  have hrun : continued r u s.deeper =
      .ok (.texted .call "()" s.front.location (u :: us)) v.dropFront := by
    simp only [continued, bind_apply, frontKind_apply, State.front_deeper, hfront, takeFront_apply,
      State.dropFront_deeper, hus, requireMark, hclose, pure_apply]
  have hcontinues : continuesOperand s.front.kind = true := by
    rw [hfront]
    rfl
  have hpast' := ((State.Past.deeper hdrop).trans hpast).trans (.dropFront hpast.script)
  refine ⟨_, _, operandRound_of_continued hcontinues (by omega) hrun, ?_, ?_, hpast'.length⟩
  · simp [hu, hmap]
  · refine ((State.Past.dropFront hs).trans hpast').mono ?_
    simp only [List.length_cons, List.length_append, List.length_nil]
    omega

/-! ## Operators before an operand -/

theorem typeInParens_of_opensType (h : OpensType s.script) : typeInParens s = .ok true s := by
  obtain ⟨b, hb, hiff⟩ := typeInParens_apply s
  rw [hb, hiff.mpr h]

theorem typeInParens_of_not (h : ¬OpensType s.script) : typeInParens s = .ok false s := by
  obtain ⟨b, hb, hiff⟩ := typeInParens_apply s
  rw [hb, Bool.eq_false_iff.mpr fun hb => h (hiff.mp hb)]

variable {Names : String → List Word → Prop}

/-- Nothing stands before an operand. -/
theorem accepts_ofOperand (hd : Derives Names .operand t ws)
    (h : Accepts (operand r) .operand t ws) : Accepts (unary r) .unary t ws := by
  intro s rest hs
  obtain ⟨w, ws', rfl, hoperator, hkeyword⟩ := hd.head_operand (.inr rfl)
  have hnot : ¬OpensType s.script := by
    rw [hs.script]
    exact hd.not_opensType (.inr rfl) rest
  have hk : s.front.kind = w.1 := front_kind_of_script hs.script
  have hrun : unary r s = operand r s := by
    simp only [unary, bind_apply, frontKind_apply]
    generalize s.front.kind = k at hk
    split
    · rename_i sign
      exact absurd hk.symm (hoperator sign)
    · exact absurd hk.symm (hkeyword _)
    · simp [bind_apply, typeInParens_of_not hnot]
  obtain ⟨u, v, hu, hbehind⟩ := h ⟨hs.script, hs.rest, hs.room⟩
  exact ⟨u, v, hrun.trans hu, hbehind.tree, hbehind.past⟩

/-- A reader behind one word that goes a level deeper. -/
theorem accepts_oneDeeper {q : Parse Node} {as : List Word} {a : Node}
    (hs : s.script = w :: (as ++ rest)) (hrest : Tier.unary.goesOn (headKind rest) = false)
    (hroom : s.depth + as.length ≤ s.limit) (has : as ≠ []) (h : Accepts q .unary a as) :
    ∃ u v, oneDeeper q s.dropFront = .ok u v ∧ u.unplaced = a ∧ s.Past rest 0 v := by
  have hlength := List.length_pos_iff.mpr has
  have hbefore : s.dropFront.deeper.Before .unary as rest := by
    refine ⟨s.script_dropFront hs, hrest, ?_⟩
    show s.depth + 1 + as.length ≤ s.limit + 1
    omega
  obtain ⟨u, v, hu, htree, hpast⟩ := h hbefore
  have hdeep : s.dropFront.depth < s.dropFront.limit := by
    show s.depth < s.limit
    omega
  have hlengths := Nat.le_trans hpast.length (State.Past.dropFront hs).length
  exact ⟨u, _, oneDeeper_of_ok hdeep hu, htree, hpast.script, hpast.limit, Nat.le_refl _, hlengths⟩

theorem accepts_signed {a : Node} {as : List Word} {op : Word} {sign : Token.Operator}
    (hop : op.1 = .operator sign) (hsign : sign.isSign = true) (has : as ≠ [])
    (h : Accepts r.unary .unary a as) :
    Accepts (unary r) .unary (.texted .unary op.2 .start [a]) (op :: as) := by
  intro s rest hs
  have hroom := hs.room
  simp only [List.length_cons, Tier.spare] at hroom
  obtain ⟨u, v, hu, htree, hpast⟩ := accepts_oneDeeper hs.script hs.rest (by omega) has h
  have hk : s.front.kind = .operator sign := front_kind_of_cons hs.script hop
  have hrun : unary r s = .ok (.texted .unary s.front.text s.front.location [u]) v := by
    simp only [unary, bind_apply, frontKind_apply, hk, if_pos hsign, takeFront_apply, hu,
      pure_apply]
  refine ⟨_, _, hrun, ?_, hpast.mono (Nat.zero_le _)⟩
  rw [Node.unplaced_texted, ← hs.front, ← htree]
  rfl

theorem accepts_updated {a : Node} {as : List Word} {op : Word} {sign : Token.Operator}
    (hop : op.1 = .operator sign) (hsign : sign.isUpdate = true)
    (h : Accepts (operand r) .operand a as) :
    Accepts (unary r) .unary (.texted .unary op.2 .start [a]) (op :: as) := by
  intro s rest hs
  have hroom := hs.room
  simp only [List.length_cons, Tier.spare] at hroom
  have hbefore : s.dropFront.Before .operand as rest := by
    refine ⟨hs.drop, hs.rest, ?_⟩
    show s.depth + as.length ≤ s.limit + 1
    omega
  obtain ⟨u, v, hu, htree, hpast⟩ := h hbefore
  have hk : s.front.kind = .operator sign := front_kind_of_cons hs.script hop
  have hnot : ¬sign.isSign = true := by
    cases sign <;> first | contradiction | simp [Token.Operator.isSign]
  have hrun : unary r s = .ok (.texted .unary s.front.text s.front.location [u]) v := by
    simp only [unary, bind_apply, frontKind_apply, hk, if_neg hnot, if_pos hsign, takeFront_apply,
      hu, pure_apply]
  refine ⟨_, _, hrun, ?_, ((State.Past.dropFront hs.script).trans hpast).mono ?_⟩
  · rw [Node.unplaced_texted, ← hs.front, ← htree]
    rfl
  · simp only [List.length_cons, Tier.spare]
    omega

variable {Body : List Word → Prop}

theorem opensType_of_names {o : Word} {type : String} {ts : List Word}
    (ho : o.1 = .delimiter .leftParen) (ht : NamesType Body type ts) (rest : List Word) :
    OpensType (o :: (ts ++ rest)) := by
  obtain ⟨w, ws, rfl, hw⟩ := ht.head
  exact ⟨o, w, ws ++ rest, rfl, ho, hw⟩

theorem accepts_sizeOfType {k o c : Word} {type : String} {ts : List Word}
    (hr : ∀ body, Body body → body.length < ts.length → r.ReadsBody body)
    (hk : k.1 = .keyword .sizeofKw) (ho : o.1 = .delimiter .leftParen)
    (hc : c.1 = .delimiter .rightParen) (ht : NamesType Body type ts) :
    Accepts (unary r) .unary (.texted .sizeOf type .start []) (k :: o :: (ts ++ [c])) := by
  intro s rest hs
  have hroom := hs.room
  simp only [List.length_cons, List.length_append, Tier.spare] at hroom
  have hfront : s.front.kind = .keyword .sizeofKw := front_kind_of_cons hs.script hk
  have hdrop : s.dropFront.script = o :: (ts ++ (c :: rest)) := by simpa using hs.drop
  have hopens : OpensType s.dropFront.script := by
    rw [hdrop]
    exact opensType_of_names ho ht _
  obtain ⟨v, hv, hpast⟩ := typeName_of_script hr ht (State.script_dropFront hdrop)
    (by rw [headKind_cons, hc]; rfl) (by simp [hc]) (by simp [hc])
    (by show s.depth + ts.length ≤ s.limit; omega)
  have hclose := require_of_script .afterSizeofType hpast.script hc
  have hrun : unary r s = .ok (.texted .sizeOf type s.front.location []) v.dropFront := by
    simp only [unary, sizeOf, bind_apply, frontKind_apply, hfront, takeFront_apply,
      typeInParens_of_opensType hopens, if_true, hv, requireMark, hclose, pure_apply]
  have hpast' := ((State.Past.dropFront hdrop).trans hpast).trans (.dropFront hpast.script)
  refine ⟨_, _, hrun, by simp, ((State.Past.dropFront hs.script).trans hpast').mono ?_⟩
  omega

theorem accepts_sizeOf {k : Word} {a : Node} {as : List Word} (hk : k.1 = .keyword .sizeofKw)
    (hd : Derives Names .unary a as) (hopen : ¬OpensType as) (h : Accepts r.unary .unary a as) :
    Accepts (unary r) .unary (.plain .sizeOf .start [a]) (k :: as) := by
  intro s rest hs
  have hroom := hs.room
  simp only [List.length_cons, Tier.spare] at hroom
  obtain ⟨u, v, hu, htree, hpast⟩ := accepts_oneDeeper hs.script hs.rest (by omega) hd.ne_nil h
  have hfront : s.front.kind = .keyword .sizeofKw := front_kind_of_cons hs.script hk
  have hnot : ¬OpensType s.dropFront.script := by
    rw [hs.drop]
    exact fun hmore => hopen (hd.opensType_of_append hmore)
  have hrun : unary r s = .ok (.plain .sizeOf s.front.location [u]) v := by
    simp only [unary, sizeOf, bind_apply, frontKind_apply, hfront, takeFront_apply,
      typeInParens_of_not hnot, Bool.false_eq_true, if_false, hu, pure_apply]
  exact ⟨_, _, hrun, by simp [htree], hpast.mono (Nat.zero_le _)⟩

theorem accepts_cast {o c : Word} {type : String} {a : Node} {ts as : List Word}
    (hr : ∀ body, Body body → body.length < ts.length → r.ReadsBody body)
    (ho : o.1 = .delimiter .leftParen) (hc : c.1 = .delimiter .rightParen)
    (ht : NamesType Body type ts) (has : as ≠ []) (h : Accepts r.unary .unary a as) :
    Accepts (unary r) .unary (.texted .cast type .start [a]) (o :: (ts ++ c :: as)) := by
  intro s rest hs
  have hroom := hs.room
  simp only [List.length_cons, List.length_append, Tier.spare] at hroom
  have hfront : s.front.kind = .delimiter .leftParen := front_kind_of_cons hs.script ho
  have hscript : s.script = o :: (ts ++ (c :: (as ++ rest))) := by simpa using hs.script
  have hopens : OpensType s.script := by
    rw [hscript]
    exact opensType_of_names ho ht _
  obtain ⟨v, hv, hpast⟩ := typeName_of_script hr ht (s.script_dropFront hscript)
    (by rw [headKind_cons, hc]; rfl) (by simp [hc]) (by simp [hc])
    (by show s.depth + ts.length ≤ s.limit; omega)
  have hclose := require_of_script .afterCastType hpast.script hc
  have hdepth := hpast.depth
  have hlimit := hpast.limit
  have hdepth' : v.depth ≤ s.depth := hdepth
  have hlimit' : v.limit = s.limit := hlimit
  obtain ⟨u, x, hu, htree, hpast'⟩ :=
    accepts_oneDeeper hpast.script hs.rest (by omega) has h
  have hrun : unary r s = .ok (.texted .cast type s.front.location [u]) x := by
    simp only [unary, cast, bind_apply, frontKind_apply, hfront, typeInParens_of_opensType hopens,
      if_true, takeFront_apply, hv, requireMark, hclose, hu, pure_apply]
  refine ⟨_, _, hrun, by simp [htree], ?_⟩
  exact (((State.Past.dropFront hscript).trans hpast).trans hpast').mono (by omega)

/-! ## Operators between operands -/

/-- One round of lengthening a chain of operands. -/
def chainRound (level : Nat) (operand : Parse Node) (left : Node) : Parse (Turn Node) := do
  if isOfLevel level (← frontKind) then
    goDeeper
    let op ← takeFront
    let right ← operand
    pure (.again (.texted .binary op.text op.location [left, right]))
  else pure (.done left)

theorem goesOnUpTo_succ {level : Nat} {k : Token.Kind} (h : goesOnUpTo (level + 1) k = false) :
    goesOnUpTo level k = false ∧ isOfLevel (level + 1) k = false := by
  simp only [goesOnUpTo, List.range_succ, List.any_append, List.any_cons, List.any_nil,
    Bool.or_eq_false_iff] at h ⊢
  exact ⟨⟨h.1, h.2.1⟩, h.2.2.1⟩

/-- An operator belongs to one level alone. -/
theorem goesOnUpTo_of_isOfLevel {level : Nat} {k : Token.Kind}
    (h : isOfLevel (level + 1) k = true) : goesOnUpTo level k = false := by
  cases k with
  | operator o =>
      have ho : o.level = some (level + 1) := by simpa [isOfLevel] using h
      have hcontinues : continuesOperand (.operator o) = false := by
        cases o <;> first | rfl | simp [Token.Operator.level] at ho
      simp only [goesOnUpTo, hcontinues, isOfLevel, ho, Bool.or_eq_false_iff]
      refine ⟨by simp, List.any_eq_false.mpr ?_⟩
      intro l hl
      have hlt := List.mem_range.mp hl
      simp
      omega
  | _ => simp [isOfLevel] at h

theorem chainRound_done {level : Nat} {p : Parse Node} (u : Node) (s : State)
    (hk : (Tier.binary (level + 1)).goesOn s.front.kind = false) :
    chainRound (level + 1) p u s = .ok (.done u) s := by
  have hk : ¬isOfLevel (level + 1) s.front.kind = true := by
    simpa using (goesOnUpTo_succ hk).2
  simp only [chainRound, bind_apply, frontKind_apply, if_neg hk, pure_apply]

theorem continues_binary {level : Nat} {p : Parse Node} {a b : Node} {bs : List Word} {op : Word}
    (hop : isOfLevel (level + 1) op.1 = true) (h : Accepts p (.binary level) b bs) :
    Continues (chainRound (level + 1) p) (.binary level) a (.texted .binary op.2 .start [a, b])
      (op :: bs) := by
  intro s rest u hu hs hrest hroom
  simp only [List.length_cons] at hroom
  have hk : isOfLevel (level + 1) s.front.kind = true := by
    rw [front_kind_of_script hs]
    exact hop
  have hword := s.front_word hs
  have hdrop := s.script_dropFront hs
  have hbefore : s.dropFront.deeper.Before (.binary level) bs rest := by
    refine ⟨hdrop, hrest, ?_⟩
    show s.depth + 1 + bs.length ≤ s.limit + 1
    omega
  obtain ⟨u', v, hu', htree, hpast⟩ := h hbefore
  have hdeep : s.depth < s.limit := by omega
  have hrun : chainRound (level + 1) p u s =
      .ok (.again (.texted .binary s.front.text s.front.location [u, u'])) v := by
    simp only [chainRound, bind_apply, frontKind_apply, if_pos hk, goDeeper_apply hdeep,
      takeFront_apply, State.front_deeper, State.dropFront_deeper, hu', pure_apply]
  have hpast' := (State.Past.deeper hdrop).trans hpast
  refine ⟨_, _, hrun, ?_, ((State.Past.dropFront hs).trans hpast').mono ?_, hpast'.length⟩
  · rw [Node.unplaced_texted, ← hword, ← hu, ← htree]
    rfl
  · simp only [List.length_cons]
    omega

/-- No operators stand between operands at the lowest level. -/
theorem accepts_ofUnary (h : Accepts (unary r) .unary t ws) :
    Accepts (binary r 0) (.binary 0) t ws := by
  intro s rest hs
  obtain ⟨u, v, hu, htree, hpast⟩ := h ⟨hs.script, hs.rest, hs.room⟩
  exact ⟨u, v, hu, htree, hpast⟩

theorem accepts_ofBinary (h : Accepts (binary r 10) (.binary 10) t ws) :
    Accepts (conditional r) .conditional t ws := by
  intro s rest hs
  have hrest := hs.rest
  simp only [Tier.goesOn, Bool.or_eq_false_iff] at hrest
  obtain ⟨u, v, hu, htree, hpast⟩ := h ⟨hs.script, hrest.1, hs.room⟩
  have hk : v.front.kind ≠ .operator .question := by
    rw [front_kind_of_script hpast.script]
    simpa using hrest.2
  have hrun : conditional r s = .ok u v := by
    simp only [conditional, bind_apply, hu, frontKind_apply, if_neg hk, pure_apply]
  exact ⟨u, v, hrun, htree, hpast⟩

theorem accepts_conditional {a b c : Node} {as bs cs : List Word} {q d : Word}
    (hq : q.1 = .operator .question) (hd : d.1 = .delimiter .colon) (hne : as ≠ [])
    (ha : Accepts (binary r 10) (.binary 10) a as) (hb : Accepts r.expression .expression b bs)
    (hc : Accepts r.conditional .conditional c cs) :
    Accepts (conditional r) .conditional (.texted .conditional "?:" .start [a, b, c])
      (as ++ q :: (bs ++ d :: cs)) := by
  intro s rest hs
  have hroom := hs.room
  have hlength := List.length_pos_iff.mpr hne
  simp only [List.length_append, List.length_cons, Tier.spare] at hroom
  have hquestion : Tier.goesOn (.binary 10) (.operator .question) = false := by decide
  have hbeforeA : s.Before (.binary 10) as (q :: (bs ++ d :: cs) ++ rest) := by
    refine ⟨by simpa using hs.script, by rw [List.cons_append, headKind_cons, hq, hquestion], ?_⟩
    show s.depth + as.length ≤ s.limit + 1
    omega
  obtain ⟨u, v, hu, htree, hpast⟩ := ha hbeforeA
  have hdepth := hpast.depth
  have hlimit := hpast.limit
  simp only [Tier.spare] at hdepth
  have hk : v.front.kind = .operator .question := front_kind_of_cons hpast.script hq
  have hdrop : v.dropFront.script = bs ++ (d :: (cs ++ rest)) := by
    simpa using v.script_dropFront hpast.script
  have hbeforeB : v.dropFront.Before .expression bs (d :: (cs ++ rest)) := by
    refine ⟨hdrop, ?_, ?_⟩
    · rw [headKind_cons, hd]
      exact goesOn_expression_of_delimiter (by simp)
    · show v.depth + bs.length ≤ v.limit + 0
      omega
  obtain ⟨u', v', hu', htree', hpast'⟩ := hb hbeforeB
  have hdepth' : v'.depth ≤ v.depth + bs.length := hpast'.depth
  have hlimit' : v'.limit = v.limit := hpast'.limit
  have hcolon := require_of_script .inConditional hpast'.script hd
  have hdrop' := State.script_dropFront hpast'.script
  have hbeforeC : v'.dropFront.deeper.Before .conditional cs rest := by
    refine ⟨hdrop', hs.rest, ?_⟩
    show v'.depth + 1 + cs.length ≤ v'.limit + 1
    omega
  obtain ⟨u'', v'', hu'', htree'', hpast''⟩ := hc hbeforeC
  have hdeep : v'.dropFront.depth < v'.dropFront.limit := by
    show v'.depth < v'.limit
    omega
  have hfalse := oneDeeper_of_ok hdeep hu''
  have hrun : conditional r s =
      .ok (.texted .conditional "?:" v.front.location [u, u', u''])
        { v'' with depth := v'.dropFront.depth } := by
    simp only [conditional, bind_apply, hu, frontKind_apply, if_pos hk, takeFront_apply, hu',
      requireMark, hcolon, hfalse, pure_apply]
  have hback : v'.dropFront.Past rest 0 { v'' with depth := v'.dropFront.depth } :=
    ⟨hpast''.script, hpast''.limit, Nat.le_refl _, hpast''.length⟩
  refine ⟨_, _, hrun, by simp [htree, htree', htree''], ?_⟩
  refine ((hpast.trans (.dropFront hpast.script)).trans
    ((hpast'.trans (.dropFront hpast'.script)).trans hback)).mono ?_
  simp only [List.length_append, List.length_cons, Tier.spare]
  omega

theorem accepts_ofConditional (hne : ws ≠ [])
    (h : Accepts (conditional r) .conditional t ws) :
    Accepts (expression r) .expression t ws := by
  intro s rest hs
  have hrest := hs.rest
  have hroom := hs.room
  have hlength := List.length_pos_iff.mpr hne
  simp only [Tier.goesOn, Bool.or_eq_false_iff] at hrest
  simp only [Tier.spare] at hroom
  have hbefore : s.deeper.Before .conditional ws rest := by
    refine ⟨hs.script, by simp [Tier.goesOn, hrest], ?_⟩
    show s.depth + 1 + ws.length ≤ s.limit + 1
    omega
  obtain ⟨u, v, hu, htree, hpast⟩ := h hbefore
  have hk : ¬v.front.kind.isAssignment = true := by
    rw [front_kind_of_script hpast.script]
    simpa using hrest.2
  have hrun : expression r s = .ok u { v with depth := s.depth } := by
    refine oneDeeper_of_ok (by omega) ?_
    simp only [bind_apply, hu, frontKind_apply, if_neg hk, pure_apply]
  exact ⟨u, _, hrun, htree, hpast.script, hpast.limit, Nat.le_add_right _ _, hpast.length⟩

theorem accepts_assignment {a b : Node} {as bs : List Word} {op : Word}
    (hop : op.1.isAssignment = true) (hne : as ≠ [])
    (ha : Accepts (conditional r) .conditional a as) (hb : Accepts r.expression .expression b bs) :
    Accepts (expression r) .expression (.texted .assignment op.2 .start [a, b])
      (as ++ op :: bs) := by
  intro s rest hs
  have hroom := hs.room
  have hlength := List.length_pos_iff.mpr hne
  simp only [List.length_append, List.length_cons, Tier.spare] at hroom
  have hstop : Tier.conditional.goesOn op.1 = false := by
    cases hk : op.1 with
    | operator o =>
        rw [hk] at hop
        cases o <;> first | contradiction | decide
    | _ =>
        rw [hk] at hop
        contradiction
  have hbefore : s.deeper.Before .conditional as (op :: (bs ++ rest)) := by
    refine ⟨by simpa using hs.script, hstop, ?_⟩
    show s.depth + 1 + as.length ≤ s.limit + 1
    omega
  obtain ⟨u, v, hu, htree, hpast⟩ := ha hbefore
  have hdepth : v.depth ≤ s.depth + 1 + (as.length - 1) := hpast.depth
  have hlimit : v.limit = s.limit := hpast.limit
  have hk : v.front.kind.isAssignment = true := by
    rw [front_kind_of_script hpast.script]
    exact hop
  have hword := v.front_word hpast.script
  have hbefore' : v.dropFront.Before .expression bs rest := by
    refine ⟨v.script_dropFront hpast.script, hs.rest, ?_⟩
    show v.depth + bs.length ≤ v.limit + 0
    omega
  obtain ⟨u', v', hu', htree', hpast'⟩ := hb hbefore'
  have hrun : expression r s =
      .ok (.texted .assignment v.front.text v.front.location [u, u'])
        { v' with depth := s.depth } := by
    refine oneDeeper_of_ok (by omega) ?_
    simp only [bind_apply, hu, frontKind_apply, if_pos hk, takeFront_apply, hu', pure_apply]
  have hall := (hpast.trans (.dropFront hpast.script)).trans hpast'
  refine ⟨_, _, hrun, ?_, hall.script, hall.limit, Nat.le_add_right _ _, hall.length⟩
  rw [Node.unplaced_texted, ← hword, ← htree, ← htree']
  rfl

/-! ## Whole expressions -/

/-- What holds of the readers of a tier. Where a reader makes rounds, the rounds do it. -/
def Works (r : Rules) : Tier → Node → List Word → Prop
  | .primary => Accepts (primary r) .primary
  | .operand => Extends (primary r) (operandRound r) .primary
  | .unary => Accepts (unary r) .unary
  | .binary 0 => Accepts (binary r 0) (.binary 0)
  | .binary (level + 1) =>
    Extends (binary r level) (chainRound (level + 1) (binary r level)) (.binary level)
  | .conditional => Accepts (conditional r) .conditional
  | .expression => Accepts (expression r) .expression

theorem Works.operand (h : Works r .operand t ws) : Accepts (operand r) .operand t ws := by
  refine Extends.accepts h rfl ?_ operandRound_done
  intro k hk
  simp only [Tier.goesOn, goesOnUpTo, Bool.or_eq_false_iff] at hk ⊢
  exact hk.1.1

theorem Works.binary {level : Nat} (h : Works r (.binary level) t ws) :
    Accepts (binary r level) (.binary level) t ws := by
  cases level with
  | zero => exact h
  | succ level =>
      refine Extends.accepts h rfl ?_ chainRound_done
      intro k hk
      exact (goesOnUpTo_succ hk).1

/-- The levels of rules up to `n` read the structs whose bodies have fewer words than the level. -/
def ReadsBodies (Body : List Word → Prop) (n : Nat) : Prop :=
  ∀ m ≤ n, ∀ body, Body body → body.length < m → (Rules.level m).ReadsBody body

theorem ReadsBodies.below {n : Nat} (h : ReadsBodies Body (n + 1)) : ReadsBodies Body n :=
  fun m hm => h m (Nat.le_succ_of_le hm)

/-- What is derived from words is read from them, with a level of rules for each word. -/
theorem works_within {tier : Tier} (hd : Derives (NamesType Body) tier t ws) (n : Nat)
    (hn : ws.length ≤ n + 1) (hbody : ReadsBodies Body n) : Works (.level n) tier t ws := by
  induction hd generalizing n with
  | number hw hx => exact accepts_number hw hx
  | strings h => exact accepts_strings h
  | character hw => exact accepts_character hw
  | identifier hw => exact accepts_identifier hw
  | parens ho hc _ ih =>
      simp only [List.length_cons, List.length_append, List.length_nil] at hn
      obtain ⟨m, rfl⟩ : ∃ m, n = m + 1 := ⟨n - 1, by omega⟩
      exact accepts_parens ho hc (ih m (by omega) hbody.below)
  | ofPrimary _ ih => exact extends_of_accepts (ih n hn hbody)
  | index ho hc ha _ iha ihi =>
      simp only [List.length_cons, List.length_append, List.length_nil] at hn
      obtain ⟨m, rfl⟩ : ∃ m, n = m + 1 := ⟨n - 1, by omega⟩
      exact (iha (m + 1) (by omega) hbody).step
        (continues_index ho hc (ihi m (by omega) hbody.below)) rfl ha.ne_nil
        (by simp [Tier.goesOn, ho])
  | @call f fs gs given o c ho hc hgs hf hall ihf ih =>
      simp only [List.length_cons, List.length_append, List.length_nil] at hn
      obtain ⟨m, rfl⟩ : ∃ m, n = m + 1 := ⟨n - 1, by omega⟩
      have hhead : ∀ p ∈ given, ∃ w ws, p.2 = w :: ws ∧ w.1 ≠ .delimiter .rightParen := by
        intro p hp
        obtain ⟨w, ws, hws, hw⟩ := (hall p hp).head
        refine ⟨w, ws, hws, ?_⟩
        rintro hparen
        rw [hparen] at hw
        contradiction
      have hargs : ∀ p ∈ given, Accepts (Rules.level (m + 1)).expression .expression p.1 p.2 := by
        intro p hp
        have hle := hgs.length_le (List.mem_map_of_mem hp)
        exact ih p hp m (by omega) hbody.below
      exact (ihf (m + 1) (by omega) hbody).step (continues_call ho hc hgs hhead hargs) rfl
        hf.ne_nil (by simp [Tier.goesOn, ho])
  | member hop hname ha ih =>
      simp only [List.length_cons, List.length_append, List.length_nil] at hn
      refine (ih n (by omega) hbody).step (continues_memberOf hop hname rfl ?_) rfl ha.ne_nil
        (by simp [Tier.goesOn, hop])
      intro s u hs
      simp only [continued, bind_apply, frontKind_apply, hs]
  | pointerMember hop hname ha ih =>
      simp only [List.length_cons, List.length_append, List.length_nil] at hn
      refine (ih n (by omega) hbody).step (continues_memberOf hop hname rfl ?_) rfl ha.ne_nil
        (by simp [Tier.goesOn, hop])
      intro s u hs
      simp only [continued, bind_apply, frontKind_apply, hs]
  | update hop hsign ha ih =>
      simp only [List.length_cons, List.length_append, List.length_nil] at hn
      exact (ih n (by omega) hbody).step (continues_update hop hsign) rfl ha.ne_nil
        (by simp [Tier.goesOn, hop])
  | ofOperand ha ih => exact accepts_ofOperand ha (ih n hn hbody).operand
  | signed hop hsign ha ih =>
      have hlength := List.length_pos_iff.mpr ha.ne_nil
      rw [List.length_cons] at hn
      obtain ⟨m, rfl⟩ : ∃ m, n = m + 1 := ⟨n - 1, by omega⟩
      exact accepts_signed hop hsign ha.ne_nil (ih m (by omega) hbody.below)
  | updated hop hsign ha ih =>
      rw [List.length_cons] at hn
      exact accepts_updated hop hsign (ih n (by omega) hbody).operand
  | sizeOfType hk ho hc ht =>
      simp only [List.length_cons, List.length_append, List.length_nil] at hn
      obtain ⟨m, rfl⟩ : ∃ m, n = m + 1 := ⟨n - 1, by omega⟩
      exact accepts_sizeOfType
        (fun body hnamed hlength => hbody _ (Nat.le_refl _) body hnamed (by omega)) hk ho hc ht
  | sizeOf hk hopen ha ih =>
      have hlength := List.length_pos_iff.mpr ha.ne_nil
      rw [List.length_cons] at hn
      obtain ⟨m, rfl⟩ : ∃ m, n = m + 1 := ⟨n - 1, by omega⟩
      exact accepts_sizeOf hk ha hopen (ih m (by omega) hbody.below)
  | cast ho hc ht ha ih =>
      simp only [List.length_cons, List.length_append] at hn
      obtain ⟨m, rfl⟩ : ∃ m, n = m + 1 := ⟨n - 1, by omega⟩
      exact accepts_cast
        (fun body hnamed hlength => hbody _ (Nat.le_refl _) body hnamed (by omega)) ho hc ht
        ha.ne_nil (ih m (by omega) hbody.below)
  | ofUnary _ ih => exact accepts_ofUnary (ih n hn hbody)
  | ofTighter _ ih => exact extends_of_accepts (ih n hn hbody).binary
  | binary hop ha _ iha ihb =>
      simp only [List.length_cons, List.length_append] at hn
      exact Extends.step (iha n (by omega) hbody)
        (continues_binary hop (ihb n (by omega) hbody).binary) rfl ha.ne_nil
        (goesOnUpTo_of_isOfLevel hop)
  | ofBinary _ ih => exact accepts_ofBinary (ih n hn hbody).binary
  | conditional hq hd ha _ _ iha ihb ihc =>
      simp only [List.length_cons, List.length_append] at hn
      obtain ⟨m, rfl⟩ : ∃ m, n = m + 1 := ⟨n - 1, by omega⟩
      exact accepts_conditional hq hd ha.ne_nil (iha (m + 1) (by omega) hbody).binary
        (ihb m (by omega) hbody.below) (ihc m (by omega) hbody.below)
  | ofConditional ha ih => exact accepts_ofConditional ha.ne_nil (ih n hn hbody)
  | assignment hop ha _ iha ihb =>
      have hlength := List.length_pos_iff.mpr ha.ne_nil
      simp only [List.length_cons, List.length_append] at hn
      obtain ⟨m, rfl⟩ : ∃ m, n = m + 1 := ⟨n - 1, by omega⟩
      exact accepts_assignment hop ha.ne_nil (iha (m + 1) (by omega) hbody)
        (ihb m (by omega) hbody.below)

/-- The same where no struct has a body. -/
theorem works {tier : Tier} (hd : Derives (NamesType (· = [])) tier t ws) (n : Nat)
    (hn : ws.length ≤ n + 1) : Works (.level n) tier t ws := by
  refine works_within hd n hn ?_
  rintro (_ | m) hm body rfl hlength
  · contradiction
  · exact Rules.readsBody_nil m

/-- An expression is read from words that it is derived from, up to the end of input. -/
theorem expression_of_script {n : Nat} (hd : Derives (NamesType (· = [])) .expression t ws)
    (hs : s.script = ws) (hn : ws.length ≤ n + 1) (hroom : s.depth + ws.length ≤ s.limit) :
    ∃ u v, expression (.level n) s = .ok u v ∧ u.unplaced = t ∧ v.script = [] := by
  have hbefore : s.Before .expression ws [] := ⟨by simpa using hs, by decide, hroom⟩
  obtain ⟨u, v, hu, htree, hpast⟩ := works hd n hn hbefore
  exact ⟨u, v, hu, htree, hpast.script⟩

end Grammar

end CSurvey
