import CSurvey.Proofs.Grammar.Progress
import CSurvey.Proofs.Grammar.TypeNames

/-! # Runs over given words

What a reader does in a state whose next words are known. -/

namespace CSurvey

/-- The kind of the first word, or the end. -/
def headKind (ws : List Word) : Token.Kind :=
  (ws.head?.map Prod.fst).getD .endOfInput

@[simp] theorem headKind_cons (w : Word) (ws : List Word) : headKind (w :: ws) = w.1 := rfl

namespace Grammar

variable {s u v : State} {w : Word} {ws rest : List Word}

theorem front_kind_of_script (h : s.script = ws) : s.front.kind = headKind ws := by
  rw [s.front_kind, h]
  rfl

theorem front_kind_of_cons {k : Token.Kind} (h : s.script = w :: ws) (hw : w.1 = k) :
    s.front.kind = k := by
  rw [front_kind_of_script h]
  exact hw

theorem State.open_of_script (h : s.script = w :: ws) : s.Open := by
  obtain ⟨t, ts, hwords, -, -⟩ := s.words_of_script h
  obtain ⟨us, hup, -⟩ := s.upcoming_eq_cons hwords
  rw [State.Open, hup]
  exact List.cons_ne_nil _ _

/-- The later state stands before the words, at most `used` levels deeper. -/
structure State.Past (s : State) (rest : List Word) (used : Nat) (v : State) : Prop where
  script : v.script = rest
  limit : v.limit = s.limit
  depth : v.depth ≤ s.depth + used
  length : v.rest.length ≤ s.rest.length

namespace State.Past

variable {m n : Nat}

theorem refl (h : s.script = ws) : s.Past ws 0 s :=
  ⟨h, rfl, Nat.le_refl _, Nat.le_refl _⟩

theorem trans (h : s.Past ws m u) (h' : u.Past rest n v) : s.Past rest (m + n) v := by
  have hdepth := h.depth
  have hdepth' := h'.depth
  exact ⟨h'.script, h'.limit.trans h.limit, by omega, Nat.le_trans h'.length h.length⟩

theorem mono (h : s.Past ws m u) (hmn : m ≤ n) : s.Past ws n u := by
  have hdepth := h.depth
  exact ⟨h.script, h.limit, by omega, h.length⟩

theorem dropFront (h : s.script = w :: ws) : s.Past ws 0 s.dropFront := by
  have hlt := (State.open_of_script h).length_dropFront
  exact ⟨s.script_dropFront h, rfl, Nat.le_refl _, by omega⟩

/-- What there is room for before the words there is room for behind them. -/
theorem room (h : s.Past rest 0 v) (hroom : s.depth + n ≤ s.limit) : v.depth + n ≤ v.limit := by
  have hdepth := h.depth
  have hlimit := h.limit
  omega

theorem deeper (h : s.script = ws) : s.Past ws 1 s.deeper :=
  ⟨h, rfl, Nat.le_refl _, Nat.le_refl _⟩

end State.Past

/-- Where a word is left, a round is left. -/
theorem State.exists_round {fuel : List Token} (h : s.script = w :: ws)
    (hfuel : s.rest.length ≤ fuel.length) :
    ∃ x fuel', fuel = x :: fuel' ∧ s.dropFront.rest.length ≤ fuel'.length := by
  have hlt := (State.open_of_script h).length_dropFront
  cases fuel with
  | nil =>
      rw [List.length_nil] at hfuel
      omega
  | cons x fuel =>
      rw [List.length_cons] at hfuel
      exact ⟨x, fuel, rfl, by omega⟩

/-- A token that the next word is a token of is taken. -/
theorem require_of_script {k : Token.Kind} (place : Place) (h : s.script = w :: ws)
    (hw : w.1 = k) : require k place s = .ok s.front s.dropFront := by
  have hk := front_kind_of_cons h hw
  rw [require_apply, if_pos hk]

/-- The construct is read with the place left for it, one level deeper. -/
theorem oneDeeper_of_ok {α : Type} {p : Parse α} {a : α} (hroom : s.depth < s.limit)
    (h : p s.deeper = .ok a u) :
    oneDeeper p s = .ok a { u with depth := s.depth } :=
  oneDeeper_eq_ok.mpr ⟨hroom, u, h, rfl⟩

/-! ## Types -/

theorem typeModifiers_none (h : s.front.kind.isTypeModifier = false) :
    typeModifiers s = .ok [] s := by
  refine bind_eq_ok.mpr ⟨[], s, loop_done ?_, rfl⟩
  show (if s.front.kind.isTypeModifier = true then _ else _ : Parse (Turn (List String))) s = _
  rw [h]
  rfl

theorem pointers_none (h : s.front.kind ≠ .operator .star) : pointers s = .ok 0 s := by
  refine loop_done (bind_eq_ok.mpr ⟨false, s, ?_, rfl⟩)
  show (if s.front.kind = .operator .star then _ else _ : Parse Bool) s = _
  rw [if_neg h]
  rfl

/-- One round of reading type modifiers. -/
def modifierRound (words : List String) : Parse (Turn (List String)) := do
  if (← frontKind).isTypeModifier then
    let token ← takeFront
    pure (.again (token.spelling :: words))
  else pure (.done words)

theorem rounds_modifierRound {fuel : List Token} (words : List String)
    (hs : s.script = ws ++ rest) (hws : ∀ w ∈ ws, w.1.isTypeModifier = true)
    (hrest : (headKind rest).isTypeModifier = false) (hfuel : s.rest.length ≤ fuel.length) :
    ∃ v, rounds modifierRound fuel words s = .ok ((ws.map Word.spelling).reverse ++ words) v ∧
      s.Past rest 0 v := by
  induction ws generalizing s words fuel with
  | nil =>
      have hk : ¬s.front.kind.isTypeModifier = true := by
        rw [front_kind_of_script hs]
        simpa using hrest
      have hround : modifierRound words s = .ok (.done words) s := by
        simp only [modifierRound, bind_apply, frontKind_apply, if_neg hk, pure_apply]
      exact ⟨s, by simpa using rounds_done hround fuel, .refl hs⟩
  | cons w ws ih =>
      have hk : s.front.kind.isTypeModifier = true := by
        rw [front_kind_of_script hs]
        exact hws w (List.mem_cons_self ..)
      have hw := s.front_word hs
      have hround : modifierRound words s =
          .ok (.again (w.spelling :: words)) s.dropFront := by
        simp only [modifierRound, bind_apply, frontKind_apply, if_pos hk, takeFront_apply,
          pure_apply, ← hw]
        rfl
      obtain ⟨x, fuel, rfl, hfuel'⟩ := State.exists_round hs hfuel
      obtain ⟨v, hv, hpast⟩ := ih (w.spelling :: words) (s.script_dropFront hs)
        (fun w hw => hws w (List.mem_cons_of_mem _ hw)) hfuel'
      refine ⟨v, ?_, (State.Past.dropFront hs).trans hpast⟩
      rw [rounds_again hround, hv]
      simp

theorem typeModifiers_of_script (hs : s.script = ws ++ rest)
    (hws : ∀ w ∈ ws, w.1.isTypeModifier = true)
    (hrest : (headKind rest).isTypeModifier = false) :
    ∃ v, typeModifiers s = .ok (ws.map Word.spelling) v ∧ s.Past rest 0 v := by
  obtain ⟨v, hv, hpast⟩ := rounds_modifierRound [] hs hws hrest (Nat.le_refl s.rest.length)
  have hloop : loop modifierRound [] s = .ok ((ws.map Word.spelling).reverse ++ []) v := hv
  refine ⟨v, ?_, hpast⟩
  show (loop modifierRound [] >>= fun words => pure words.reverse) s = _
  rw [bind_apply, hloop]
  simp [pure_apply]

/-- The tag of a struct without a body. -/
theorem structSpecifier_of_script {r : Rules} {k tag : Word} (hs : s.script = k :: tag :: rest)
    (htag : tag.1 = .identifier) (hrest : headKind rest ≠ .delimiter .leftBrace) :
    ∃ node v, structSpecifier r s = .ok node v ∧ node.text? = some tag.2 ∧
      node.kind = .structDeclaration ∧ s.Past rest 0 v := by
  have hs' := s.script_dropFront hs
  have hs'' := State.script_dropFront hs'
  have hk : s.dropFront.front.kind = .identifier := front_kind_of_cons hs' htag
  have hbrace : s.dropFront.dropFront.front.kind ≠ .delimiter .leftBrace := by
    rwa [front_kind_of_script hs'']
  have haccept : accept (.delimiter .leftBrace) s.dropFront.dropFront =
      .ok false s.dropFront.dropFront := by
    rw [accept_apply, if_neg hbrace]
  have hword : s.dropFront.front.text = tag.2 := by
    rw [← Token.word_snd, State.front_word hs']
  refine ⟨.texted .structDeclaration s.dropFront.front.text s.front.location [],
    s.dropFront.dropFront, ?_, congrArg some hword, rfl,
    (State.Past.dropFront hs).trans (State.Past.dropFront hs')⟩
  simp only [structSpecifier, bind_apply, takeFront_apply, frontKind_apply, if_pos hk, haccept]
  rfl

theorem Token.Kind.isTypeModifier_of_isBaseType {k : Token.Kind} (h : k.isBaseType = true) :
    k.isTypeModifier = false := by
  cases k with
  | keyword word =>
      cases word <;> first | rfl | contradiction
  | _ => rfl

theorem Token.Kind.isBaseType_of_isMemberType {k : Token.Kind} (h : k.isMemberType = true) :
    k.isBaseType = true := by
  cases k with
  | keyword word =>
      cases word <;> first | rfl | contradiction
  | _ => contradiction

/-- No modifier belongs to a type that starts with the name of a member type. -/
theorem typeSpecifier_member {r : Rules} (hs : s.front.kind.isMemberType = true) :
    ∃ type, typeSpecifier r s = .ok type s.dropFront := by
  have hbase := Token.Kind.isBaseType_of_isMemberType hs
  have hmodifier := typeModifiers_none (Token.Kind.isTypeModifier_of_isBaseType hbase)
  refine ⟨⟨" ".intercalate [s.front.spelling], none⟩, ?_⟩
  simp only [typeSpecifier, bind_apply, hmodifier, frontKind_apply, if_pos hbase, takeFront_apply,
    pure_apply, List.nil_append]

theorem Token.Kind.startsType_eq_false {k : Token.Kind} :
    k.startsType = false ↔
      k.isBaseType = false ∧ k.isTypeModifier = false ∧ k ≠ .keyword .structKw := by
  simp [Token.Kind.startsType, and_assoc]

/-- The rules read a struct with the words of the body behind its tag, where there is room for
them. -/
def Rules.ReadsBody (r : Rules) (body : List Word) : Prop :=
  ∀ ⦃s : State⦄ ⦃k tag : Word⦄ ⦃rest : List Word⦄, s.script = k :: tag :: (body ++ rest) →
    tag.1 = .identifier → headKind rest ≠ .delimiter .leftBrace →
    s.depth + body.length ≤ s.limit →
    ∃ node v, r.structSpecifier s = .ok node v ∧ node.text? = some tag.2 ∧ s.Past rest 0 v

/-- A struct may always be without a body. -/
theorem Rules.readsBody_nil (levels : Nat) : (Rules.level (levels + 1)).ReadsBody [] := by
  intro s k tag rest hs htag hrest _
  obtain ⟨node, v, hnode, htext, -, hpast⟩ :=
    structSpecifier_of_script (r := .level levels) hs htag hrest
  exact ⟨node, v, hnode, htext, hpast⟩

/-- Words of a type without stars are read as that type, where the struct in it is. `P` holds of the
struct, or of none. -/
theorem typeSpecifier_of_struct {Body : List Word → Prop} {r : Rules} {text : String}
    {P : Option Node → Prop} (hnone : P none)
    (hstruct : ∀ {u : State} {k tag : Word} {body : List Word}, Body body →
      body.length < ws.length → s.Past (k :: tag :: (body ++ rest)) 0 u → tag.1 = .identifier →
      ∃ node v, r.structSpecifier u = .ok node v ∧ node.text? = some tag.2 ∧ P (some node) ∧
        u.Past rest 0 v)
    (h : NamesSpecifier Body text ws) (hs : s.script = ws ++ rest)
    (hrest : (headKind rest).startsType = false) :
    ∃ type v, typeSpecifier r s = .ok type v ∧ type.text = text ∧ P type.structNode ∧
      s.Past rest 0 v := by
  obtain ⟨hmodifiers, hbase, hsome⟩ := h
  rename_i modifiers base names
  obtain ⟨hbaseRest, hmodifierRest, hstructRest⟩ := Token.Kind.startsType_eq_false.mp hrest
  rw [List.append_assoc] at hs
  cases hbase with
  | base hw =>
      have hmodifier := Token.Kind.isTypeModifier_of_isBaseType hw
      obtain ⟨v, hv, hpast⟩ := typeModifiers_of_script hs hmodifiers hmodifier
      have hk : v.front.kind.isBaseType = true := by
        rw [front_kind_of_script hpast.script]
        exact hw
      have hword := v.front_word hpast.script
      refine ⟨⟨_, none⟩, v.dropFront, ?_, rfl, hnone, hpast.trans (.dropFront hpast.script)⟩
      simp only [typeSpecifier, bind_apply, hv, frontKind_apply, if_pos hk, takeFront_apply,
        pure_apply, ← hword]
      rfl
  | @struct k tag body hk htag hbody =>
      simp only [List.length_append, List.length_cons] at hstruct
      have hmodifier : (headKind (k :: tag :: body ++ rest)).isTypeModifier = false := by
        rw [List.cons_append, headKind_cons, hk]
        rfl
      obtain ⟨v, hv, hpast⟩ := typeModifiers_of_script hs hmodifiers hmodifier
      have hfront : v.front.kind = .keyword .structKw := by
        rw [front_kind_of_script hpast.script, ← hk]
        rfl
      obtain ⟨node, u, hu, htext, hnode, hpast'⟩ := hstruct hbody (by omega) hpast htag
      refine ⟨⟨_, some node⟩, u, ?_, rfl, hnode, hpast.trans hpast'⟩
      have hbaseType : ¬(Token.Kind.keyword .structKw).isBaseType = true := by decide
      simp only [typeSpecifier, bind_apply, hv, frontKind_apply, hfront, if_neg hbaseType, if_pos,
        hu, pure_apply, htext, Option.getD_some]
      rfl
  | absent =>
      rw [List.append_nil] at hsome
      obtain ⟨v, hv, hpast⟩ := typeModifiers_of_script hs hmodifiers hmodifierRest
      have hfront : v.front.kind = headKind rest := front_kind_of_script hpast.script
      have hwords : ¬(modifiers.map Word.spelling).isEmpty = true := by simpa using hsome
      refine ⟨⟨" ".intercalate (modifiers.map Word.spelling), none⟩, v, ?_, ?_, hnone, hpast⟩
      · simp only [typeSpecifier, bind_apply, hv, frontKind_apply, hfront, hbaseRest, hstructRest,
          if_neg hwords]
        rfl
      · rw [List.append_nil]

/-- Words of a type without stars are read as that type. -/
theorem typeSpecifier_of_script {Body : List Word → Prop} {r : Rules} {text : String}
    (hr : ∀ body, Body body → body.length < ws.length → r.ReadsBody body)
    (h : NamesSpecifier Body text ws) (hs : s.script = ws ++ rest)
    (hrest : (headKind rest).startsType = false) (hbrace : headKind rest ≠ .delimiter .leftBrace)
    (hroom : s.depth + ws.length ≤ s.limit) :
    ∃ type v, typeSpecifier r s = .ok type v ∧ type.text = text ∧ s.Past rest 0 v := by
  obtain ⟨type, v, hv, htext, -, hpast⟩ :=
    typeSpecifier_of_struct (P := fun _ => True) trivial (by
      intro u k tag body hbody hlength hpast htag
      have hdepth : u.depth ≤ s.depth := hpast.depth
      have hlimit : u.limit = s.limit := hpast.limit
      obtain ⟨node, v, hnode, htext, hpast'⟩ :=
        hr body hbody hlength hpast.script htag hbrace (by omega)
      exact ⟨node, v, hnode, htext, trivial, hpast'⟩) h hs hrest
  exact ⟨type, v, hv, htext, hpast⟩

/-- A type in which no struct has a body is read at any depth, and no struct is defined by it. -/
theorem typeSpecifier_of_bodiless {text : String} (levels : Nat)
    (h : NamesSpecifier (· = []) text ws) (hs : s.script = ws ++ rest)
    (hrest : (headKind rest).startsType = false) (hbrace : headKind rest ≠ .delimiter .leftBrace) :
    ∃ type v, typeSpecifier (.level (levels + 1)) s = .ok type v ∧ type.text = text ∧
      (∀ node ∈ type.structNode, node.kind = .structDeclaration) ∧ s.Past rest 0 v := by
  refine typeSpecifier_of_struct (P := fun found => ∀ node ∈ found, node.kind = .structDeclaration)
    (by simp) ?_ h hs hrest
  rintro u k tag body rfl - hpast htag
  obtain ⟨node, v, hnode, htext, hkind, hpast'⟩ :=
    structSpecifier_of_script (r := .level levels) hpast.script htag hbrace
  exact ⟨node, v, hnode, htext, by simpa using hkind, hpast'⟩

/-- One round of reading pointer stars. -/
def starRound (type : String) : Parse (Turn String) := do
  if ← accept (.operator .star) then pure (.again (type ++ "*"))
  else pure (.done type)

/-- Stars are added to the text of a type. -/
theorem turns_starRound (text : String) (hws : ∀ w ∈ ws, w.1 = .operator .star)
    (hs : s.script = ws ++ rest) (hrest : headKind rest ≠ .operator .star) :
    ∃ v, Turns starRound text s (text ++ starsText ws.length) v ∧ s.Past rest 0 v := by
  induction ws generalizing s text with
  | nil =>
      have hk : s.front.kind ≠ .operator .star := by rwa [front_kind_of_script hs]
      have hround : starRound text s = .ok (.done (text ++ starsText 0)) s := by
        simp only [starRound, bind_apply, accept_apply, if_neg hk]
        simp [starsText, pure_apply]
      exact ⟨s, .done hround, .refl hs⟩
  | cons w ws ih =>
      obtain ⟨hw, hws⟩ := List.forall_mem_cons.mp hws
      have hk : s.front.kind = .operator .star := front_kind_of_cons hs hw
      have hround : starRound text s = .ok (.again (text ++ "*")) s.dropFront := by
        simp only [starRound, bind_apply, accept_apply, if_pos hk]
        rfl
      obtain ⟨v, hturns, hpast⟩ := ih (text ++ "*") hws (s.script_dropFront hs)
      rw [append_star_starsText] at hturns
      exact ⟨v, .again hround (State.open_of_script hs).length_dropFront hturns,
        (State.Past.dropFront hs).trans hpast⟩

/-- A type that is read goes on with the stars behind it. -/
theorem typeName_of_typeSpecifier {r : Rules} {type : TypeSpecifier}
    (htype : typeSpecifier r s = .ok type u) (hpast : s.Past (ws ++ rest) 0 u)
    (hws : ∀ w ∈ ws, w.1 = .operator .star) (hrest : headKind rest ≠ .operator .star) :
    ∃ v, typeName r s = .ok (type.text ++ starsText ws.length) v ∧ s.Past rest 0 v := by
  obtain ⟨v, hturns, hpast'⟩ := turns_starRound type.text hws hpast.script hrest
  refine ⟨v, ?_, hpast.trans hpast'⟩
  show (typeSpecifier r >>= fun type => pointerStars type.text) s = _
  rw [bind_apply, htype]
  exact hturns.loop_eq

/-- Words of a type are read as that type, if nothing behind them belongs to a type. -/
theorem typeName_of_script {Body : List Word → Prop} {r : Rules} {text : String}
    (hr : ∀ body, Body body → body.length < ws.length → r.ReadsBody body)
    (h : NamesType Body text ws) (hs : s.script = ws ++ rest)
    (hrest : (headKind rest).startsType = false) (hbrace : headKind rest ≠ .delimiter .leftBrace)
    (hstar : headKind rest ≠ .operator .star) (hroom : s.depth + ws.length ≤ s.limit) :
    ∃ v, typeName r s = .ok text v ∧ s.Past rest 0 v := by
  obtain ⟨base, ts, stars, hts, hstars, rfl, rfl⟩ := h.split
  rw [List.append_assoc] at hs
  rw [List.length_append] at hr hroom
  have hnext : (headKind (stars ++ rest)).startsType = false ∧
      headKind (stars ++ rest) ≠ .delimiter .leftBrace := by
    cases stars with
    | nil => exact ⟨hrest, hbrace⟩
    | cons w stars =>
        rw [List.cons_append, headKind_cons, hstars w (List.mem_cons_self ..)]
        exact ⟨rfl, by simp⟩
  obtain ⟨type, u, hu, rfl, hpast⟩ := typeSpecifier_of_script
    (fun body hbody hlength => hr body hbody (by omega)) hts hs hnext.1 hnext.2 (by omega)
  exact typeName_of_typeSpecifier hu hpast hstars hstar

/-! ## Items -/

/-- A token that starts a type starts no directive line. -/
theorem Token.Kind.isDirective_of_startsType {k : Token.Kind} (h : k.startsType = true) :
    k.isDirective = false := by
  cases k with
  | directive _ => contradiction
  | _ => rfl

/-- An item that begins with a type is a declaration. -/
theorem item_of_startsType {r : Rules} (h : s.front.kind.startsType = true) :
    item r s = declaration r s := by
  have hline : ∀ marker, s.front.kind ≠ .directive marker := by
    intro marker hmarker
    have hnone := Token.Kind.isDirective_of_startsType h
    rw [hmarker] at hnone
    contradiction
  have hdirective : ¬s.front.kind.isDirective = true := by
    rw [Token.Kind.isDirective_of_startsType h]
    exact Bool.false_ne_true
  simp only [item, bind_apply, frontKind_apply, if_neg (hline _), if_neg hdirective, if_pos h]

end Grammar

end CSurvey
