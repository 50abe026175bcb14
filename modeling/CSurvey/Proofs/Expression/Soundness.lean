import CSurvey.Grammar.Program
import CSurvey.Proofs.Expression.Derivation
import CSurvey.Proofs.Grammar.TypeNames
import CSurvey.Proofs.Syntax.Places

/-! # What is read is derived

A successful reading of an expression has taken words that the tree is derived from. -/

namespace CSurvey.Grammar

/-- Between the states stand words that the tree is derived from. -/
def Reads (Body : List Word → Prop) (tier : Tier) (s : State) (t : Node) (u : State) : Prop :=
  ∃ ws, s.script = ws ++ u.script ∧ Derives (NamesType Body) tier t.unplaced ws

/-- The rules read what the grammar derives. -/
structure Rules.Sound (Body : List Word → Prop) (r : Rules) : Prop where
  composed : r.Composed
  expression : ∀ ⦃s t u⦄, r.expression s = .ok t u → Reads Body .expression s t u
  conditional : ∀ ⦃s t u⦄, r.conditional s = .ok t u → Reads Body .conditional s t u
  unary : ∀ ⦃s t u⦄, r.unary s = .ok t u → Reads Body .unary s t u
  structSpecifier : ∀ s t node, s.front.kind = .keyword .structKw →
    r.structSpecifier s = .ok node t → ReadsStruct Body s node t

/-- A change of tier that the grammar allows. -/
theorem Reads.map {Body : List Word → Prop} {tier tier' : Tier} {s u : State} {t : Node}
    (h : Reads Body tier s t u)
    (hmap : ∀ ws, Derives (NamesType Body) tier t.unplaced ws →
      Derives (NamesType Body) tier' t.unplaced ws) :
    Reads Body tier' s t u := by
  obtain ⟨ws, hs, hws⟩ := h
  exact ⟨ws, hs, hmap ws hws⟩

/-- The depth is no word. -/
theorem Reads.oneDeeper {Body : List Word → Prop} {tier : Tier} {p : Parse Node} {s u : State}
    {t : Node} (hp : ∀ ⦃s t u⦄, p s = .ok t u → Reads Body tier s t u)
    (h : oneDeeper p s = .ok t u) : Reads Body tier s t u := by
  obtain ⟨-, v, hv, rfl⟩ := oneDeeper_eq_ok.mp h
  obtain ⟨ws, hs, hws⟩ := hp hv
  exact ⟨ws, hs, hws⟩

theorem front_eq_ok {s t : State} {token : Token} :
    front s = .ok token t ↔ s.front = token ∧ s = t := by
  show EStateM.Result.ok s.front s = .ok token t ↔ _
  simp

section Productions

variable {Body : List Word → Prop} {r : Rules} {s u : State} {t : Node}

/-! ## Operands -/

theorem moreStrings_reads {text text' : String} (h : moreStrings text s = .ok text' u) :
    ∃ ws, s.script = ws ++ u.script ∧ (∀ w ∈ ws, w.1 = .string) ∧
      text' = text ++ String.join (ws.map fun w => unquoted w.2) := by
  let reads : String → State → Prop := fun found v =>
    ∃ ws, s.script = ws ++ v.script ∧ (∀ w ∈ ws, w.1 = .string) ∧
      found = text ++ String.join (ws.map fun w => unquoted w.2)
  refine loop_ok (I := reads) (D := reads) ?_ ⟨[], rfl, by simp, by simp⟩ h
  rintro found v turn v' ⟨ws, hs, hws, rfl⟩ hturn
  obtain ⟨kind, w, hkind, hturn⟩ := bind_eq_ok.mp hturn
  obtain ⟨rfl, rfl⟩ := frontKind_eq_ok.mp hkind
  split at hturn
  · rename_i hstring
    obtain ⟨token, w, htoken, hturn⟩ := bind_eq_ok.mp hturn
    obtain ⟨rfl, rfl⟩ := takeFront_eq_ok.mp htoken
    obtain ⟨rfl, rfl⟩ := pure_eq_ok.mp hturn
    refine ⟨ws ++ [v.front.word], ?_, ?_, ?_⟩
    · rw [hs, State.script_of_front (by simp [hstring]), List.append_assoc]
      rfl
    · exact List.forall_mem_append.mpr ⟨hws, List.forall_mem_singleton.mpr hstring⟩
    · simp [Token.word, String.append_assoc]
  · obtain ⟨rfl, rfl⟩ := pure_eq_ok.mp hturn
    exact ⟨ws, hs, hws, rfl⟩

theorem primary_reads (hr : r.Sound Body) (h : primary r s = .ok t u) :
    Reads Body .primary s t u := by
  obtain ⟨token, v, htoken, h⟩ := bind_eq_ok.mp h
  obtain ⟨rfl, rfl⟩ := front_eq_ok.mp htoken
  have hfront : s.front.kind ≠ .endOfInput → s.script = [s.front.word] ++ s.dropFront.script :=
    State.script_of_front
  generalize hk : s.front.kind = k at h
  split at h
  · obtain ⟨token, v, htoken, h⟩ := bind_eq_ok.mp h
    obtain ⟨rfl, rfl⟩ := takeFront_eq_ok.mp htoken
    generalize hx : Numeral.read s.front.text = value at h
    cases value with
    | some x =>
        obtain ⟨rfl, rfl⟩ := pure_eq_ok.mp h
        have hd : Derives (NamesType Body) .primary _ [s.front.word] := .number hk hx
        exact ⟨_, hfront (by simp [hk]), hd⟩
    | none =>
        simp [failAt] at h
  · obtain ⟨token, v, htoken, h⟩ := bind_eq_ok.mp h
    obtain ⟨rfl, rfl⟩ := takeFront_eq_ok.mp htoken
    obtain ⟨text, v, htext, h⟩ := bind_eq_ok.mp h
    obtain ⟨rfl, rfl⟩ := pure_eq_ok.mp h
    obtain ⟨ws, hs, hws, rfl⟩ := moreStrings_reads htext
    have hall : ∀ w ∈ s.front.word :: ws, w.1 = .string := List.forall_mem_cons.mpr ⟨hk, hws⟩
    refine ⟨s.front.word :: ws, ?_, ?_⟩
    · rw [hfront (by simp [hk]), hs]
      rfl
    · have hd : Derives (NamesType Body) .primary _ _ := .strings hall
      simpa [Token.word] using hd
  · obtain ⟨token, v, htoken, h⟩ := bind_eq_ok.mp h
    obtain ⟨rfl, rfl⟩ := takeFront_eq_ok.mp htoken
    obtain ⟨rfl, rfl⟩ := pure_eq_ok.mp h
    have hd : Derives (NamesType Body) .primary _ [s.front.word] := .character hk
    exact ⟨_, hfront (by simp [hk]), by simpa using hd⟩
  · obtain ⟨token, v, htoken, h⟩ := bind_eq_ok.mp h
    obtain ⟨rfl, rfl⟩ := takeFront_eq_ok.mp htoken
    obtain ⟨rfl, rfl⟩ := pure_eq_ok.mp h
    have hd : Derives (NamesType Body) .primary _ [s.front.word] := .identifier hk
    exact ⟨_, hfront (by simp [hk]), by simpa using hd⟩
  · obtain ⟨token, v, htoken, h⟩ := bind_eq_ok.mp h
    obtain ⟨rfl, rfl⟩ := takeFront_eq_ok.mp htoken
    obtain ⟨inner, v, hinner, h⟩ := bind_eq_ok.mp h
    obtain ⟨close, w, hclose, h⟩ := bind_eq_ok.mp h
    obtain ⟨rfl, rfl⟩ := pure_eq_ok.mp h
    obtain ⟨hc, rfl, rfl⟩ := require_eq_ok.mp hclose
    obtain ⟨ws, hs, hws⟩ := hr.expression hinner
    have hd : Derives (NamesType Body) .primary _ (s.front.word :: (ws ++ [v.front.word])) :=
      .parens hk hc hws
    refine ⟨_, ?_, hd⟩
    rw [hfront (by simp [hk]), hs, State.script_of_front (s := v) (by simp [hc])]
    simp
  · simp [failFound] at h

/-! ### Lists -/

section Lists

variable {α : Type} {P : α → List Word → Prop} {found : List α} {a : α} {v : State}

/-- One or more results have been read from words with commas between them, to be told from the
commas. -/
def ReadsAll (P : α → List Word → Prop) (s : State) (found : List α) (u : State) : Prop :=
  found ≠ [] ∧ ∃ (given : List (α × List Word)) (gs : List Word), s.script = gs ++ u.script ∧
    given.map Prod.fst = found ∧ Separated (given.map Prod.snd) gs ∧ ∀ p ∈ given, P p.1 p.2

/-- The same with a comma behind each of them, so that more can follow. -/
def ReadsMany (P : α → List Word → Prop) (s : State) (found : List α) (u : State) : Prop :=
  ∃ (given : List (α × List Word)) (gs : List Word), s.script = gs ++ u.script ∧
    given.map Prod.fst = found ∧
    (∀ vs rest us, Separated (vs :: rest) us →
      Separated (given.map Prod.snd ++ vs :: rest) (gs ++ us)) ∧
    ∀ p ∈ given, P p.1 p.2

theorem ReadsMany.last {ws : List Word} (h : ReadsMany P s found v)
    (hv : v.script = ws ++ u.script) (hws : P a ws) : ReadsAll P s (found ++ [a]) u := by
  obtain ⟨given, gs, hs, hgiven, hopen, hall⟩ := h
  refine ⟨by simp, given ++ [(a, ws)], gs ++ ws, ?_, ?_, ?_, ?_⟩
  · rw [hs, hv, List.append_assoc]
  · simp [hgiven]
  · simpa using hopen ws [] ws (.one ws)
  · exact List.forall_mem_append.mpr ⟨hall, List.forall_mem_singleton.mpr hws⟩

theorem ReadsMany.next {ws : List Word} (h : ReadsMany P s found v)
    (hv : v.script = ws ++ u.script) (hws : P a ws) (hcomma : u.front.kind = .delimiter .comma) :
    ReadsMany P s (found ++ [a]) u.dropFront := by
  obtain ⟨given, gs, hs, hgiven, hopen, hall⟩ := h
  refine ⟨given ++ [(a, ws)], gs ++ (ws ++ [u.front.word]), ?_, ?_, ?_, ?_⟩
  · rw [hs, hv, State.script_of_front (s := u) (by simp [hcomma])]
    simp
  · simp [hgiven]
  · intro vs rest us hus
    have hmore := hopen ws (vs :: rest) _ (.more (c := u.front.word) hcomma hus)
    simpa using hmore
  · exact List.forall_mem_append.mpr ⟨hall, List.forall_mem_singleton.mpr hws⟩

/-- What is read with commas between is read from words with commas between. -/
theorem commaSeparated_reads {p : Parse α}
    (hp : ∀ ⦃s a t⦄, p s = .ok a t → ∃ ws, s.script = ws ++ t.script ∧ P a ws)
    (h : commaSeparated p s = .ok found u) : ReadsAll P s found u := by
  obtain ⟨reversed, v, hfound, h⟩ := bind_eq_ok.mp h
  obtain ⟨rfl, rfl⟩ := pure_eq_ok.mp h
  have hnone : ReadsMany P s [] s := ⟨[], [], rfl, rfl, fun _ _ _ h => h, by simp⟩
  refine loop_ok (I := fun found v => ReadsMany P s found.reverse v)
    (D := fun found v => ReadsAll P s found.reverse v) ?_ hnone hfound
  rintro found v turn w hmany hturn
  obtain ⟨a, x, ha, hturn⟩ := bind_eq_ok.mp hturn
  obtain ⟨ws, hv, hws⟩ := hp ha
  obtain ⟨b, y, haccept, hturn⟩ := bind_eq_ok.mp hturn
  rcases accept_eq_ok.mp haccept with ⟨hcomma, rfl, rfl⟩ | ⟨-, rfl, rfl⟩
  · obtain ⟨rfl, rfl⟩ := pure_eq_ok.mp hturn
    have hmore := hmany.next hv hws hcomma
    simpa [Turn.Holds] using hmore
  · obtain ⟨rfl, rfl⟩ := pure_eq_ok.mp hturn
    have hlast := hmany.last hv hws
    simpa [Turn.Holds] using hlast

end Lists

/-- The arguments of a call are expressions with commas between them. -/
theorem arguments_reads (hr : r.Sound Body) {args : List Node} (h : arguments r s = .ok args u) :
    ∃ (given : List (Node × List Word)) (gs : List Word), s.script = gs ++ u.script ∧
      given.map Prod.fst = args.map Node.unplaced ∧ Separated (given.map Prod.snd) gs ∧
      ∀ p ∈ given, Derives (NamesType Body) .expression p.1 p.2 := by
  obtain ⟨kind, v, hkind, h⟩ := bind_eq_ok.mp h
  obtain ⟨rfl, rfl⟩ := frontKind_eq_ok.mp hkind
  split at h
  · obtain ⟨rfl, rfl⟩ := pure_eq_ok.mp h
    exact ⟨[], [], rfl, rfl, .none, by simp⟩
  · obtain ⟨-, given, gs, hs, rfl, hgs, hall⟩ := commaSeparated_reads hr.expression h
    refine ⟨given.map fun p => (p.1.unplaced, p.2), gs, hs, by simp,
      by simpa [Function.comp_def] using hgs, ?_⟩
    intro p hp
    obtain ⟨q, hq, rfl⟩ := List.mem_map.mp hp
    exact hall q hq

/-- What continues an operand and is neither a bracket nor asks for a member is an update. -/
theorem continuesOperand_update {k : Token.Kind} (h : continuesOperand k = true)
    (hbracket : k ≠ .delimiter .leftBracket) (hparen : k ≠ .delimiter .leftParen)
    (hdot : k ≠ .delimiter .dot) (harrow : k ≠ .operator .arrow) :
    ∃ sign : Token.Operator, k = .operator sign ∧ sign.isUpdate = true := by
  unfold continuesOperand at h
  split at h
  · contradiction
  · contradiction
  · contradiction
  · exact ⟨.increment, rfl, rfl⟩
  · exact ⟨.decrement, rfl, rfl⟩
  · contradiction
  · contradiction

theorem memberOf_reads {kind : Node.Kind} {a : Node} (hs : s.front.kind ≠ .endOfInput)
    (h : memberOf kind a s = .ok t u) :
    ∃ name, s.script = [s.front.word, name] ++ u.script ∧ name.1 = .identifier ∧
      t.unplaced = .texted kind s.front.text .start
        [a.unplaced, .texted .identifier name.2 .start []] := by
  obtain ⟨op, v, hop, h⟩ := bind_eq_ok.mp h
  obtain ⟨rfl, rfl⟩ := takeFront_eq_ok.mp hop
  obtain ⟨name, v, hname, h⟩ := bind_eq_ok.mp h
  obtain ⟨hk, rfl, rfl⟩ := require_eq_ok.mp hname
  obtain ⟨rfl, rfl⟩ := pure_eq_ok.mp h
  refine ⟨s.dropFront.front.word, ?_, hk, by simp⟩
  rw [State.script_of_front hs, State.script_of_front (s := s.dropFront) (by simp [hk])]
  rfl

/-- One continuation of an operand makes a longer operand. -/
theorem continued_reads (hr : r.Sound Body) {a : Node} {as : List Word}
    (ha : Derives (NamesType Body) .operand a.unplaced as)
    (hs : continuesOperand s.front.kind = true) (h : continued r a s = .ok t u) :
    ∃ ws, s.script = ws ++ u.script ∧
      Derives (NamesType Body) .operand t.unplaced (as ++ ws) := by
  obtain ⟨kind, v, hkind, h⟩ := bind_eq_ok.mp h
  obtain ⟨hk, rfl⟩ := frontKind_eq_ok.mp hkind
  have hend : s.front.kind ≠ .endOfInput := by
    rintro hend
    rw [hend] at hs
    contradiction
  rw [hk] at hs
  split at h
  · obtain ⟨o, v, ho, h⟩ := bind_eq_ok.mp h
    obtain ⟨rfl, rfl⟩ := takeFront_eq_ok.mp ho
    obtain ⟨i, v, hi, h⟩ := bind_eq_ok.mp h
    obtain ⟨c, w, hclose, h⟩ := bind_eq_ok.mp h
    obtain ⟨rfl, rfl⟩ := pure_eq_ok.mp h
    obtain ⟨hc, rfl, rfl⟩ := require_eq_ok.mp hclose
    obtain ⟨is, hv, his⟩ := hr.expression hi
    have hd := Derives.index (o := s.front.word) (c := v.front.word) hk hc ha his
    refine ⟨_, ?_, by simpa using hd⟩
    rw [State.script_of_front hend, hv, State.script_of_front (s := v) (by simp [hc])]
    simp
  · obtain ⟨o, v, ho, h⟩ := bind_eq_ok.mp h
    obtain ⟨rfl, rfl⟩ := takeFront_eq_ok.mp ho
    obtain ⟨args, v, hargs, h⟩ := bind_eq_ok.mp h
    obtain ⟨c, w, hclose, h⟩ := bind_eq_ok.mp h
    obtain ⟨rfl, rfl⟩ := pure_eq_ok.mp h
    obtain ⟨hc, rfl, rfl⟩ := require_eq_ok.mp hclose
    obtain ⟨given, gs, hv, hgiven, hgs, hall⟩ := arguments_reads hr hargs
    have hd := Derives.call (o := s.front.word) (c := v.front.word) hk hc hgs ha hall
    refine ⟨_, ?_, by simpa [hgiven] using hd⟩
    rw [State.script_of_front hend, hv, State.script_of_front (s := v) (by simp [hc])]
    simp
  · obtain ⟨name, hscript, hname, htree⟩ := memberOf_reads hend h
    rw [htree]
    exact ⟨_, hscript, Derives.member (o := s.front.word) hk hname ha⟩
  · obtain ⟨name, hscript, hname, htree⟩ := memberOf_reads hend h
    rw [htree]
    exact ⟨_, hscript, Derives.pointerMember (o := s.front.word) hk hname ha⟩
  · rename_i hbracket hparen hdot harrow
    obtain ⟨sign, rfl, hsign⟩ := continuesOperand_update hs hbracket hparen hdot harrow
    obtain ⟨op, v, hop, h⟩ := bind_eq_ok.mp h
    obtain ⟨rfl, rfl⟩ := takeFront_eq_ok.mp hop
    obtain ⟨rfl, rfl⟩ := pure_eq_ok.mp h
    have hd := Derives.update (o := s.front.word) hk hsign ha
    exact ⟨[s.front.word], State.script_of_front hend, by simpa using hd⟩

theorem goDeeper_script {x : Unit} (h : goDeeper s = .ok x u) :
    u.script = s.script ∧ u.front = s.front := by
  unfold goDeeper at h
  split at h
  · obtain ⟨-, rfl⟩ := EStateM.Result.ok.inj h
    exact ⟨rfl, rfl⟩
  · simp at h

theorem operand_reads (hr : r.Sound Body) (h : operand r s = .ok t u) :
    Reads Body .operand s t u := by
  obtain ⟨first, v, hfirst, h⟩ := bind_eq_ok.mp h
  have hstart := (primary_reads hr hfirst).map fun _ => Derives.ofPrimary
  refine loop_ok (I := fun a v => Reads Body .operand s a v)
    (D := fun a v => Reads Body .operand s a v) ?_ hstart h
  rintro a v turn w ⟨as, hs, has⟩ hturn
  obtain ⟨kind, x, hkind, hturn⟩ := bind_eq_ok.mp hturn
  obtain ⟨rfl, rfl⟩ := frontKind_eq_ok.mp hkind
  split at hturn
  · rename_i hcont
    obtain ⟨_, x, hdeep, hturn⟩ := bind_eq_ok.mp hturn
    obtain ⟨longer, y, hlonger, hturn⟩ := bind_eq_ok.mp hturn
    obtain ⟨rfl, rfl⟩ := pure_eq_ok.mp hturn
    obtain ⟨hscript, hfront⟩ := goDeeper_script hdeep
    rw [← hfront] at hcont
    obtain ⟨ws, hx, hws⟩ := continued_reads hr has hcont hlonger
    refine ⟨as ++ ws, ?_, hws⟩
    rw [hs, ← hscript, hx, List.append_assoc]
  · obtain ⟨rfl, rfl⟩ := pure_eq_ok.mp hturn
    exact ⟨as, hs, has⟩

/-! ## Operators before an operand -/

/-- Whether a type in parentheses stands next is seen from the words. -/
theorem typeInParens_apply (s : State) :
    ∃ b, typeInParens s = .ok b s ∧ (b = true ↔ OpensType s.script) := by
  refine ⟨decide (s.front.kind = .delimiter .leftParen) && s.second.kind.startsType, rfl, ?_⟩
  rw [Bool.and_eq_true, decide_eq_true_eq]
  constructor
  · rintro ⟨hparen, htype⟩
    cases hs : s.script with
    | nil =>
        rw [s.front_kind, hs] at hparen
        contradiction
    | cons o ws =>
        rw [s.front_kind, hs] at hparen
        rw [s.second_kind hs] at htype
        cases ws with
        | nil => contradiction
        | cons w rest => exact ⟨o, w, rest, rfl, hparen, htype⟩
  · rintro ⟨o, w, rest, hs, ho, hw⟩
    rw [s.front_kind, s.second_kind hs, hs]
    exact ⟨ho, hw⟩

theorem typeInParens_eq_ok {b : Bool} (h : typeInParens s = .ok b u) :
    s = u ∧ (b = true ↔ OpensType s.script) := by
  obtain ⟨b', hb', hiff⟩ := typeInParens_apply s
  rw [hb'] at h
  obtain ⟨rfl, rfl⟩ := EStateM.Result.ok.inj h
  exact ⟨rfl, hiff⟩

theorem OpensType.front (h : OpensType s.script) : s.front.kind = .delimiter .leftParen := by
  obtain ⟨o, w, rest, hs, ho, -⟩ := h
  rw [s.front_kind, hs]
  exact ho

theorem sizeOf_reads (hr : r.Sound Body) (hs : s.front.kind = .keyword .sizeofKw)
    (h : sizeOf r s = .ok t u) : Reads Body .unary s t u := by
  obtain ⟨k, v, hk, h⟩ := bind_eq_ok.mp h
  obtain ⟨rfl, rfl⟩ := takeFront_eq_ok.mp hk
  have hscript := State.script_of_front (s := s) (by simp [hs])
  obtain ⟨b, v, hb, h⟩ := bind_eq_ok.mp h
  obtain ⟨rfl, hopens⟩ := typeInParens_eq_ok hb
  split at h
  · rename_i htype
    have ho := OpensType.front (hopens.mp htype)
    obtain ⟨o, v, htoken, h⟩ := bind_eq_ok.mp h
    obtain ⟨rfl, rfl⟩ := takeFront_eq_ok.mp htoken
    obtain ⟨type, v, hname, h⟩ := bind_eq_ok.mp h
    obtain ⟨c, w, hclose, h⟩ := bind_eq_ok.mp h
    obtain ⟨rfl, rfl⟩ := pure_eq_ok.mp h
    obtain ⟨hc, rfl, rfl⟩ := require_eq_ok.mp hclose
    obtain ⟨ts, hv, hts⟩ := typeName_words hr.structSpecifier hname
    have hd := Derives.sizeOfType (k := s.front.word) (o := s.dropFront.front.word)
      (c := v.front.word) hs ho hc hts
    refine ⟨_, ?_, by simpa using hd⟩
    rw [hscript, State.script_of_front (s := s.dropFront) (by simp [ho]), hv,
      State.script_of_front (s := v) (by simp [hc])]
    simp
  · rename_i htype
    obtain ⟨inner, v, hinner, h⟩ := bind_eq_ok.mp h
    obtain ⟨rfl, rfl⟩ := pure_eq_ok.mp h
    obtain ⟨ws, hv, hws⟩ := Reads.oneDeeper hr.unary hinner
    have hnot : ¬OpensType ws := by
      intro hopen
      have hmore := hopen.append v.script
      rw [← hv] at hmore
      exact htype (hopens.mpr hmore)
    have hd := Derives.sizeOf (k := s.front.word) hs hnot hws
    refine ⟨_, ?_, by simpa using hd⟩
    rw [hscript, hv]
    rfl

theorem cast_reads (hr : r.Sound Body) (hs : s.front.kind = .delimiter .leftParen)
    (h : cast r s = .ok t u) : Reads Body .unary s t u := by
  obtain ⟨o, v, ho, h⟩ := bind_eq_ok.mp h
  obtain ⟨rfl, rfl⟩ := takeFront_eq_ok.mp ho
  obtain ⟨type, v, hname, h⟩ := bind_eq_ok.mp h
  obtain ⟨c, w, hclose, h⟩ := bind_eq_ok.mp h
  obtain ⟨hc, rfl, rfl⟩ := require_eq_ok.mp hclose
  obtain ⟨inner, w, hinner, h⟩ := bind_eq_ok.mp h
  obtain ⟨rfl, rfl⟩ := pure_eq_ok.mp h
  obtain ⟨ts, hv, hts⟩ := typeName_words hr.structSpecifier hname
  obtain ⟨ws, hw, hws⟩ := Reads.oneDeeper hr.unary hinner
  have hd := Derives.cast (o := s.front.word) (c := v.front.word) hs hc hts hws
  refine ⟨_, ?_, by simpa using hd⟩
  rw [State.script_of_front (s := s) (by simp [hs]), hv,
    State.script_of_front (s := v) (by simp [hc]), hw]
  simp

theorem unary_reads (hr : r.Sound Body) (h : unary r s = .ok t u) : Reads Body .unary s t u := by
  have hoperand : ∀ {s t u}, operand r s = .ok t u → Reads Body .unary s t u := fun h =>
    (operand_reads hr h).map fun _ => Derives.ofOperand
  obtain ⟨kind, v, hkind, h⟩ := bind_eq_ok.mp h
  obtain ⟨hk, rfl⟩ := frontKind_eq_ok.mp hkind
  split at h
  · have hscript := State.script_of_front (s := s) (by simp [hk])
    split at h
    · rename_i hsign
      obtain ⟨op, v, hop, h⟩ := bind_eq_ok.mp h
      obtain ⟨rfl, rfl⟩ := takeFront_eq_ok.mp hop
      obtain ⟨inner, v, hinner, h⟩ := bind_eq_ok.mp h
      obtain ⟨rfl, rfl⟩ := pure_eq_ok.mp h
      obtain ⟨ws, hv, hws⟩ := Reads.oneDeeper hr.unary hinner
      have hd := Derives.signed (o := s.front.word) hk hsign hws
      refine ⟨_, ?_, by simpa using hd⟩
      rw [hscript, hv]
      rfl
    · split at h
      · rename_i hsign
        obtain ⟨op, v, hop, h⟩ := bind_eq_ok.mp h
        obtain ⟨rfl, rfl⟩ := takeFront_eq_ok.mp hop
        obtain ⟨inner, v, hinner, h⟩ := bind_eq_ok.mp h
        obtain ⟨rfl, rfl⟩ := pure_eq_ok.mp h
        obtain ⟨ws, hv, hws⟩ := operand_reads hr hinner
        have hd := Derives.updated (o := s.front.word) hk hsign hws
        refine ⟨_, ?_, by simpa using hd⟩
        rw [hscript, hv]
        rfl
      · exact hoperand h
  · exact sizeOf_reads hr hk h
  · obtain ⟨b, v, hb, h⟩ := bind_eq_ok.mp h
    obtain ⟨rfl, hopens⟩ := typeInParens_eq_ok hb
    split at h
    · rename_i htype
      exact cast_reads hr (OpensType.front (hopens.mp htype)) h
    · exact hoperand h

/-! ## Operators between operands -/

/-- A chain of operators of one level groups to the left. -/
theorem chain_reads {level : Nat} {operand : Parse Node}
    (hoperand : ∀ {s t u}, operand s = .ok t u → Reads Body (.binary level) s t u)
    (h : chain (level + 1) operand s = .ok t u) : Reads Body (.binary (level + 1)) s t u := by
  obtain ⟨first, v, hfirst, h⟩ := bind_eq_ok.mp h
  have hstart := (hoperand hfirst).map fun _ => Derives.ofTighter
  refine loop_ok (I := fun a v => Reads Body (.binary (level + 1)) s a v)
    (D := fun a v => Reads Body (.binary (level + 1)) s a v) ?_ hstart h
  rintro a v turn w ⟨as, hs, has⟩ hturn
  obtain ⟨kind, x, hkind, hturn⟩ := bind_eq_ok.mp hturn
  obtain ⟨rfl, rfl⟩ := frontKind_eq_ok.mp hkind
  split at hturn
  · rename_i hop
    obtain ⟨_, x, hdeep, hturn⟩ := bind_eq_ok.mp hturn
    obtain ⟨op, y, htoken, hturn⟩ := bind_eq_ok.mp hturn
    obtain ⟨rfl, rfl⟩ := takeFront_eq_ok.mp htoken
    obtain ⟨right, y, hright, hturn⟩ := bind_eq_ok.mp hturn
    obtain ⟨rfl, rfl⟩ := pure_eq_ok.mp hturn
    obtain ⟨hscript, hfront⟩ := goDeeper_script hdeep
    rw [← hfront] at hop
    obtain ⟨bs, hx, hbs⟩ := hoperand hright
    have hend : x.front.kind ≠ .endOfInput := by
      rintro hend
      rw [hend] at hop
      contradiction
    have hd := Derives.binary (o := x.front.word) hop has hbs
    refine ⟨_, ?_, by simpa using hd⟩
    rw [hs, ← hscript, State.script_of_front hend, hx]
    simp
  · obtain ⟨rfl, rfl⟩ := pure_eq_ok.mp hturn
    exact ⟨as, hs, has⟩

theorem binary_reads (hr : r.Sound Body) {level : Nat} (h : binary r level s = .ok t u) :
    Reads Body (.binary level) s t u := by
  induction level generalizing s t u with
  | zero => exact (unary_reads hr h).map fun _ => Derives.ofUnary
  | succ level ih => exact chain_reads (fun h => ih h) h

theorem conditional_reads (hr : r.Sound Body) (h : conditional r s = .ok t u) :
    Reads Body .conditional s t u := by
  obtain ⟨test, v, htest, h⟩ := bind_eq_ok.mp h
  obtain ⟨as, hs, has⟩ := binary_reads hr htest
  obtain ⟨kind, x, hkind, h⟩ := bind_eq_ok.mp h
  obtain ⟨rfl, rfl⟩ := frontKind_eq_ok.mp hkind
  split at h
  · rename_i hq
    obtain ⟨q, x, htoken, h⟩ := bind_eq_ok.mp h
    obtain ⟨rfl, rfl⟩ := takeFront_eq_ok.mp htoken
    obtain ⟨whenTrue, x, htrue, h⟩ := bind_eq_ok.mp h
    obtain ⟨colon, y, hcolon, h⟩ := bind_eq_ok.mp h
    obtain ⟨hc, rfl, rfl⟩ := require_eq_ok.mp hcolon
    obtain ⟨whenFalse, y, hfalse, h⟩ := bind_eq_ok.mp h
    obtain ⟨rfl, rfl⟩ := pure_eq_ok.mp h
    obtain ⟨bs, hv, hbs⟩ := hr.expression htrue
    obtain ⟨cs, hx, hcs⟩ := Reads.oneDeeper hr.conditional hfalse
    have hd := Derives.conditional (q := v.front.word) (d := x.front.word) hq hc has hbs hcs
    refine ⟨_, ?_, by simpa using hd⟩
    rw [hs, State.script_of_front (s := v) (by simp [hq]), hv,
      State.script_of_front (s := x) (by simp [hc]), hx]
    simp
  · obtain ⟨rfl, rfl⟩ := pure_eq_ok.mp h
    exact ⟨as, hs, .ofBinary has⟩

theorem expression_reads (hr : r.Sound Body) (h : expression r s = .ok t u) :
    Reads Body .expression s t u := by
  refine Reads.oneDeeper (fun s t u h => ?_) h
  obtain ⟨target, v, htarget, h⟩ := bind_eq_ok.mp h
  obtain ⟨as, hs, has⟩ := conditional_reads hr htarget
  obtain ⟨kind, x, hkind, h⟩ := bind_eq_ok.mp h
  obtain ⟨rfl, rfl⟩ := frontKind_eq_ok.mp hkind
  split at h
  · rename_i hop
    obtain ⟨op, x, htoken, h⟩ := bind_eq_ok.mp h
    obtain ⟨rfl, rfl⟩ := takeFront_eq_ok.mp htoken
    obtain ⟨value, x, hvalue, h⟩ := bind_eq_ok.mp h
    obtain ⟨rfl, rfl⟩ := pure_eq_ok.mp h
    obtain ⟨bs, hv, hbs⟩ := hr.expression hvalue
    have hend : v.front.kind ≠ .endOfInput := by
      rintro hend
      rw [hend] at hop
      contradiction
    have hd := Derives.assignment (o := v.front.word) hop has hbs
    refine ⟨_, ?_, by simpa using hd⟩
    rw [hs, State.script_of_front hend, hv]
    simp
  · obtain ⟨rfl, rfl⟩ := pure_eq_ok.mp h
    exact ⟨as, hs, .ofConditional has⟩

end Productions

/-- The rules read what the grammar derives, at any number of levels, where the bodies of structs
are read as `Body` says. -/
theorem Rules.sound_level {Body : List Word → Prop} (habsent : Body [])
    (hbody : ∀ {r : Rules} {u v : State} {tag : String} {members : List Node}, r.Sound Body →
      u.front.kind = .delimiter .leftBrace → structBody r tag u.dropFront = .ok members v →
      v.front.kind = .delimiter .rightBrace →
      ∃ body, u.script = body ++ v.dropFront.script ∧ Body body)
    (levels : Nat) : (Rules.level levels).Sound Body := by
  induction levels with
  | zero =>
      refine ⟨Rules.level_composed 0, ?_, ?_, ?_, ?_⟩
      · exact fun _ _ _ h => by simp [level, none, fail] at h
      · exact fun _ _ _ h => by simp [level, none, fail] at h
      · exact fun _ _ _ h => by simp [level, none, fail] at h
      · exact fun _ _ _ _ h => by simp [level, none, fail] at h
  | succ levels ih =>
      exact ⟨Rules.level_composed _, fun _ _ _ h => expression_reads ih h,
        fun _ _ _ h => conditional_reads ih h, fun _ _ _ h => unary_reads ih h,
        fun _ _ _ hs h => structSpecifier_words habsent (hbody ih) hs h⟩

/-- The rules read what the grammar derives, with any words behind the brace of a struct. -/
theorem Rules.level_sound (levels : Nat) : (Rules.level levels).Sound Braced :=
  sound_level (by simp [Braced]) (fun hr => structBody_braced hr.composed) levels

end CSurvey.Grammar
