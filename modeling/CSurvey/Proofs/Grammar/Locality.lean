import CSurvey.Proofs.Expression.Soundness
import CSurvey.Proofs.Grammar.Runs
import CSurvey.Proofs.Grammar.Seam

/-! # What readers look at

No reader looks further than to the next token that counts behind what it has read, or to the end
of a directive line; and what closes with a token of its own looks no further than to that. So each
reader does in a longer text, at other places, what it does in the text at hand. -/

namespace CSurvey.Grammar

open Moves (move)

/-- Rules that do in a longer text what they do in the text at hand. -/
structure Rules.Repeats (m : Seam) (r : Rules) : Prop where
  sound : r.Sound Braced
  expression : Grammar.Repeats m State.Bounded Always r.expression r.expression
  conditional : Grammar.Repeats m State.Bounded Always r.conditional r.conditional
  unary : Grammar.Repeats m State.Bounded Always r.unary r.unary
  initializer : Grammar.Repeats m State.Open Always r.initializer r.initializer
  structSpecifier : Grammar.Repeats m State.Bounded
    (fun s => s.front.kind = .keyword .structKw) r.structSpecifier r.structSpecifier
  statement : Grammar.Repeats m State.Open Always r.statement r.statement

/-- A token of a kind other than the end is there. -/
theorem State.open_of_kind {s : State} {kind : Token.Kind} (h : s.front.kind = kind)
    (hk : kind ≠ .endOfInput) : s.Open :=
  State.open_of_front (by rwa [h])

namespace Repeats

variable {m : Seam} {P L : State → Prop} {α : Type} [Moves α] {r : Rules}

/-- What may be read anywhere may be read here. -/
theorem anywhere {p p' : Parse α} (h : Repeats m L Always p p') : Repeats m L P p p' :=
  h.mono fun _ _ => trivial

/-! ## Lists -/

theorem commaSeparated [Backward L] {p p' : Parse α} (hp : Repeats m L Always p p')
    (hcomma : Repeats m L Always (Grammar.accept (.delimiter .comma))
      (Grammar.accept (.delimiter .comma))) :
    Repeats m L P (commaSeparated p) (commaSeparated p') := by
  refine bind (loop (fun found => ?_) rfl) fun found => .pure (move_reverse found).symm
  exact bind hp fun next => bind hcomma fun _ => .ite (fun _ => .pure rfl) fun _ => .pure rfl

theorem lineTexts : Repeats m State.Bounded P lineTexts lineTexts := by
  refine bind (loop (fun found => lookKind (fun kind => ?_) rfl) rfl) fun found => .pure ?_
  · split
    · exact .pure rfl
    · exact .pure rfl
    · refine bind (.take fun s hs => State.open_of_kind hs.2 ‹_›) fun _ => .pure rfl
  · rw [move_texts, move_texts]

/-! ## Types -/

theorem typeModifiers : Repeats m State.Bounded P typeModifiers typeModifiers := by
  refine bind (loop (fun words => lookKind (fun kind => ?_) rfl) rfl) fun words => .pure ?_
  · refine .ite (fun h => bind (.take fun s hs => ?_) fun _ => .pure rfl) fun _ => .pure rfl
    exact State.open_of_kind hs.2 (by rintro rfl; contradiction)
  · rw [move_texts, move_texts]

theorem typeSpecifier (h : r.Repeats m) :
    Repeats m State.Bounded P (typeSpecifier r) (typeSpecifier r) := by
  refine bind typeModifiers fun words => ?_
  rw [move_texts]
  refine lookKind (fun kind => .ite (fun hk => ?_) fun _ => .ite (fun hk => ?_) fun _ =>
    .ite (fun _ => .failFound fun _ => rfl) fun _ => .pure rfl) rfl
  · refine bind (.take fun s hs => ?_) fun _ => .pure rfl
    exact State.open_of_kind hs.2 (by rintro rfl; contradiction)
  · refine bind (h.structSpecifier.mono fun s hs => hs.2.trans hk) fun node => .pure ?_
    rw [Node.move_text?]
    rfl

theorem pointerStars (type : String) :
    Repeats m State.Bounded P (pointerStars type) (pointerStars type) :=
  loop (fun _ => bind (accept ⟨by simp, by simp⟩) fun _ =>
    .ite (fun _ => .pure rfl) fun _ => .pure rfl) rfl

theorem typeName (h : r.Repeats m) :
    Repeats m State.Bounded P (typeName r) (typeName r) :=
  bind (typeSpecifier h) fun _ => pointerStars _

/-! ## Declarators -/

theorem skipQualifiers : Repeats m State.Bounded P skipQualifiers skipQualifiers := by
  refine loop (fun _ => lookKind (fun kind => ?_) rfl) rfl
  split
  · exact bind (.take fun s hs => State.open_of_kind hs.2 (by simp)) fun _ => .pure rfl
  · exact bind (.take fun s hs => State.open_of_kind hs.2 (by simp)) fun _ => .pure rfl
  · exact .pure rfl

theorem pointers : Repeats m State.Bounded P pointers pointers :=
  loop (fun _ => bind (accept ⟨by simp, by simp⟩) fun _ =>
    .ite (fun _ => bind skipQualifiers fun _ => .pure rfl) fun _ => .pure rfl) rfl

theorem arraySize (h : r.Repeats m) : Repeats m State.Open P (arraySize r) (arraySize r) :=
  bind takeFront fun _ => bind (acceptMark _).toOpen fun _ => .ite (fun _ => .pure rfl) fun _ =>
    bind h.expression.toOpen fun _ => bind (.requireMark _ _) fun _ => .pure rfl

theorem arraySizes (h : r.Repeats m) : Repeats m State.Open P (arraySizes r) (arraySizes r) := by
  refine bind (loop (fun sizes => lookOpen fun kind => ?_) rfl) fun sizes =>
    .pure (move_reverse sizes).symm
  exact .ite (fun _ => bind (arraySize h) fun _ => .pure rfl) fun _ => .pure rfl

theorem parameterSizes (h : r.Repeats m) (type : String) :
    Repeats m State.Open P (parameterSizes r type) (parameterSizes r type) := by
  refine loop (fun type => bind (acceptMark _).toOpen fun _ =>
    .ite (fun _ => lookOpen fun kind => .ite (fun _ => ?_) fun _ => ?_) fun _ => .pure rfl) rfl
  · exact bind (.pure rfl) fun _ => bind (.requireMark _ _) fun _ => .pure rfl
  · exact bind h.expression.toOpen.anywhere fun size =>
      bind (.pure (Node.render_move size)) fun _ => bind (.requireMark _ _) fun _ => .pure rfl

theorem parameterName : Repeats m State.Open P parameterName parameterName :=
  lookOpen fun _ => .ite (fun _ => bind takeFront fun _ => .pure rfl) fun _ => .pure rfl

theorem parameter (h : r.Repeats m) : Repeats m State.Open P (parameter r) (parameter r) :=
  bind here fun _ => lookOpen fun _ => .ite
    (fun _ => bind (typeName h).toOpen fun _ => bind parameterName fun _ =>
      bind (parameterSizes h _) fun _ => .pure (Node.move_texted ..).symm)
    fun _ => .failFound fun _ => rfl

theorem ellipsis : Repeats m State.Open P ellipsis ellipsis :=
  bind here fun _ => bind (.requireMark _ _) fun _ => bind (.requireMark _ _) fun _ =>
    bind (.requireMark _ _) fun _ => .pure rfl

theorem parameters (h : r.Repeats m) : Repeats m State.Open P (parameters r) (parameters r) := by
  refine bind (loop (fun found => lookOpen fun _ => .ite (fun _ => ?_) fun _ => ?_) rfl)
    fun found => .pure (move_reverse found).symm
  · exact bind ellipsis fun _ => .pure rfl
  · exact bind (parameter h) fun _ => bind (acceptMark _).toOpen fun _ =>
      .ite (fun _ => .pure rfl) fun _ => .pure rfl

end Repeats

/-- Two different tokens in a row are two tokens. -/
theorem State.Leads.open_dropFront {s t : State} (h : s.Leads t)
    (ht : t.front.kind ≠ .endOfInput) (hne : t.front.kind ≠ s.front.kind) :
    s.dropFront.Open := by
  obtain ⟨ws, hs⟩ := h.script
  have ht' := State.script_of_front ht
  cases ws with
  | nil =>
      rw [t.front_kind, s.front_kind, hs] at hne
      exact absurd rfl hne
  | cons w ws =>
      have hdrop := s.script_dropFront hs
      cases ws with
      | nil => exact State.open_of_script (hdrop.trans ht')
      | cons w' ws => exact State.open_of_script hdrop

theorem State.Open.script_ne_nil {s : State} (h : s.Open) : s.script ≠ [] := by
  intro hs
  exact h (State.upcoming_eq_nil (List.map_eq_nil_iff.mp hs))

/-- Behind an expression there is more to come than its first token. -/
theorem Reads.bounded {tier : Tier} {s t : State} {n : Node} (h : Reads Braced tier s n t)
    (hst : s.Leads t) (ht : t.Bounded) : s.dropFront.Bounded := by
  rcases ht with ht | hline
  · obtain ⟨ws, hs, hws⟩ := h
    obtain ⟨w, ws, rfl⟩ := List.exists_cons_of_ne_nil hws.ne_nil
    have hdrop := s.script_dropFront hs
    obtain ⟨v, vs, hrest⟩ := List.exists_cons_of_ne_nil
      (List.append_ne_nil_of_right_ne_nil ws ht.script_ne_nil)
    exact .inl (State.open_of_script (hdrop.trans hrest))
  · exact .inr (hst.onLine ▸ hline)

theorem parameterList_eq (r : Rules) :
    parameterList r = (do
      let first ← frontKind
      if first = .delimiter .rightParen then pure []
      else
        let noneGiven ← ahead (.keyword .voidKw) fun k => k = .delimiter .rightParen
        if noneGiven then
          let _ ← takeFront
          pure []
        else parameters r) := by
  funext s
  show (if s.front.kind = .delimiter .rightParen then _ else _ : Parse (List Node)) s =
    (if s.front.kind = .delimiter .rightParen then _ else _ : Parse (List Node)) s
  split
  · rfl
  · rfl

namespace RepeatsTo

variable {m : Seam} {P : State → Prop} {r : Rules}

/-- Parameters are closed by a parenthesis. -/
theorem parameterList (h : r.Repeats m) :
    RepeatsTo m (fun _ t => t.front.kind = .delimiter .rightParen) P (parameterList r)
      (parameterList r) := by
  have hopen : ∀ {t : State}, t.front.kind = .delimiter .rightParen → t.Open := fun ht =>
    State.open_of_kind ht (by simp)
  rw [parameterList_eq]
  refine .look (fun _ => rfl) (fun first => .ite (fun _ => .pure rfl) fun _ => ?_)
    fun s _ t _ hst _ ht => Backward.back hst (hopen ht)
  refine .ahead ⟨by simp, by simp⟩ ⟨rfl, rfl⟩ (fun _ t ht => .inl (hopen ht)) (fun noneGiven => ?_)
    fun s _ t _ hs hst _ ht => .inl (hst.open_dropFront (by simp [ht]) (by simp [ht, hs]))
  refine .ite (fun _ => ?_) fun _ => (Repeats.parameters h).toClosed (by simp)
  exact Repeats.toClosed (.bind .takeFront fun _ => .pure rfl) (by simp)

end RepeatsTo

namespace Repeats

variable {m : Seam} {P L : State → Prop} {α : Type} [Moves α] {r : Rules}

theorem renders_move {f : Position → Position} (ns : List Node) :
    (move f ns).map Node.render = ns.map Node.render := by
  show (ns.map (move f)).map Node.render = _
  rw [List.map_map]
  exact List.map_congr_left fun n _ => Node.render_move n

theorem declarator (h : r.Repeats m) : Repeats m State.Open P (declarator r) (declarator r) := by
  refine bind pointers.toOpen fun stars => lookOpen fun _ =>
    .ite (fun _ => bind takeFront fun name => bind (acceptMark _).toOpen fun _ =>
      .ite (fun _ => ?_) fun _ => ?_) fun _ => .failFound fun _ => rfl
  · exact .closedBy (by simp) (.parameterList h) fun params _ =>
      .pure (congrArg (Declarator.mk · stars []) (Node.move_texted ..).symm)
  · refine bind (arraySizes h) fun sizes => .pure ?_
    rw [renders_move]
    exact congrArg (Declarator.mk · stars _) (Node.move_texted ..).symm

theorem structMembers (h : r.Repeats m) :
    Repeats m State.Open P (structMembers r) (structMembers r) := by
  refine bind here fun location => bind (typeSpecifier h).toOpen fun type =>
    bind (commaSeparated (declarator h) (acceptMark _).toOpen) fun declared =>
      bind (.requireMark _ _) fun _ => .pure ?_
  show (declared.map (move m.place)).map _ = (declared.map _).map (move m.place)
  rw [List.map_map, List.map_map]
  rfl

/-! ## Structs -/

theorem reportPassed (tag : String) (passed : List Token) :
    Repeats m L P (reportPassed tag passed) (reportPassed tag (move m.place passed)) := by
  have hlast : (move m.place passed).getLast? = passed.getLast?.map (move m.place) :=
    List.getLast?_map
  unfold Grammar.reportPassed
  rw [hlast]
  cases passed.getLast? with
  | none => exact .pure rfl
  | some first => exact .note _ _

theorem passBraces (passed : List Token) :
    Repeats m State.Open P (passBraces passed) (passBraces (move m.place passed)) := by
  refine bind (loop (fun (depth, passed) => bind takeFront fun token => ?_) rfl)
    fun (_, _) => .pure rfl
  rw [Token.move_kind]
  split
  · exact .pure rfl
  · exact .pure rfl
  · exact .ite (fun _ => .pure rfl) fun _ => .pure rfl
  · exact .ite (fun _ => .pure rfl) fun _ => .pure rfl

theorem structBody (h : r.Repeats m) (tag : String) :
    Repeats m State.Open P (structBody r tag) (structBody r tag) := by
  refine bind (loop (fun body => lookOpen fun kind => ?_) rfl) fun body =>
    bind (reportPassed _ _) fun _ => .pure (move_reverse body.members).symm
  refine .ite (fun _ => .pure rfl) fun _ => .ite (fun _ => .fail rfl) fun _ =>
    .ite (fun _ => ?_) fun _ => .ite (fun _ => ?_) fun _ => ?_
  · refine bind (reportPassed _ _) fun _ => bind (structMembers h) fun found => .pure ?_
    show Turn.again (StructBody.mk (_ ++ move m.place body.members) []) =
      .again ⟨move m.place (_ ++ body.members), []⟩
    rw [move_append, move_reverse]
  · exact bind (passBraces _) fun _ => .pure rfl
  · exact bind takeFront fun _ => .pure rfl

theorem structSpecifier (h : r.Repeats m) :
    Repeats m State.Bounded (fun s => s.front.kind = .keyword .structKw) (structSpecifier r)
      (structSpecifier r) := by
  refine bind (.take fun s hs => State.open_of_kind hs (by simp)) fun keyword =>
    lookKind (fun kind => .ite (fun hk => ?_) fun _ => .failFound fun _ => rfl) rfl
  refine bind (.take fun s hs => State.open_of_kind hs.2 (by simp [hk])) fun tag =>
    bind (acceptMark _) fun _ => .ite (fun _ => ?_) fun _ => .pure rfl
  exact .closedBy (by simp) ((structBody h _).toClosed (by simp)) fun _ _ =>
    .pure (Node.move_texted ..).symm

/-! ## Expressions -/

theorem moreStrings (text : String) :
    Repeats m State.Bounded P (moreStrings text) (moreStrings text) := by
  refine loop (fun text => lookKind (fun kind => .ite (fun hk => ?_) fun _ => .pure rfl) rfl) rfl
  exact bind (.take fun s hs => State.open_of_kind hs.2 (by simp [hk])) fun _ => .pure rfl

theorem primary (h : r.Repeats m) : Repeats m State.Bounded P (primary r) (primary r) := by
  refine .look (g := fun token => token) (fun _ => rfl) (fun token => ?_) fun s b t _ _ hb _ => ?_
  · have htake : token.kind ≠ .endOfInput → Repeats m State.Bounded
        (fun s => P s ∧ s.front = token) Grammar.takeFront Grammar.takeFront := fun hk =>
      .take fun s hs => State.open_of_front (by rwa [hs.2])
    simp only [Token.move_kind, Token.move_text]
    split
    · refine bind (htake (by simp [*])) fun _ => ?_
      split
      · exact .pure rfl
      · exact .failAt rfl rfl
    · exact bind (htake (by simp [*])) fun _ => bind (moreStrings _) fun _ => .pure rfl
    · exact bind (htake (by simp [*])) fun _ => .pure rfl
    · exact bind (htake (by simp [*])) fun _ => .pure rfl
    · exact bind (htake (by simp [*])) fun _ => bind h.expression fun _ =>
        bind (.requireMark _ _) fun _ => .pure rfl
    · exact .failFound fun _ => rfl
  · by_contra hopen
    rw [State.front_of_not_open hopen] at hb
    cases hb

theorem arguments (h : r.Repeats m) :
    Repeats m State.Bounded P (arguments r) (arguments r) :=
  lookKind (fun _ => .ite (fun _ => .pure rfl) fun _ =>
    anywhere (commaSeparated h.expression (acceptMark _))) rfl

theorem memberOf (kind : Node.Kind) (operand : Node) :
    Repeats m State.Bounded State.Open (memberOf kind operand)
      (memberOf kind (move m.place operand)) :=
  bind (.take fun _ hs => hs) fun _ => bind (.require (by simp) _) fun _ => .pure rfl

theorem continued (h : r.Repeats m) (operand : Node) :
    Repeats m State.Bounded State.Open (continued r operand)
      (continued r (move m.place operand)) := by
  refine lookAt (fun _ hs => hs) fun kind => ?_
  split
  · exact bind (.take fun _ hs => hs.1) fun _ => bind h.expression fun _ =>
      bind (.requireMark _ _) fun _ => .pure rfl
  · exact bind (.take fun _ hs => hs.1) fun _ => bind (arguments h) fun _ =>
      bind (.requireMark _ _) fun _ => .pure (by rw [Node.move_texted]; rfl)
  · exact (memberOf _ _).mono fun _ hs => hs.1
  · exact (memberOf _ _).mono fun _ hs => hs.1
  · exact bind (.take fun _ hs => hs.1) fun _ => .pure rfl

/-- Going deeper keeps the place among the tokens. -/
theorem deeper [Backward L] {f f' : Unit → Parse α} (hP : ∀ s, P s → s.Open)
    (hf : ∀ a, Repeats m L State.Open (f a) (f' a)) :
    Repeats m L P (Grammar.goDeeper >>= f) (Grammar.goDeeper >>= f') := by
  refine bindThen .goDeeper (fun s t a hs ha => ?_) hf
  unfold Grammar.goDeeper at ha
  split at ha
  · obtain ⟨-, rfl⟩ := EStateM.Result.ok.inj ha
    exact hP s hs
  · cases ha

theorem operand (h : r.Repeats m) : Repeats m State.Bounded P (operand r) (operand r) := by
  refine bind (primary h) fun first => loop (fun operand => lookKind (fun kind => ?_) rfl) rfl
  refine .ite (fun hk => deeper (fun s hs => ?_) fun _ => ?_) fun _ => .pure rfl
  · exact State.open_of_kind hs.2 (by rintro rfl; contradiction)
  · exact bind (continued h _) fun _ => .pure rfl

theorem typeInParens_eq :
    typeInParens = ahead (.delimiter .leftParen) Token.Kind.startsType := rfl

theorem sizeOf (h : r.Repeats m) :
    Repeats m State.Bounded (fun s => s.front.kind = .keyword .sizeofKw) (sizeOf r) (sizeOf r) := by
  refine bind (.take fun s hs => State.open_of_kind hs (by simp)) fun keyword => ?_
  rw [typeInParens_eq]
  refine .ahead ⟨by simp, by simp⟩ ⟨rfl, rfl⟩ (fun _ _ ht => ht) (fun isType => ?_) ?_
  · refine .ite (fun hparen => ?_) fun _ => ?_
    · refine bind (.take fun s hs => State.open_of_kind (hs.2 hparen) (by simp)) fun _ =>
        bind (typeName h) fun _ => bind (.requireMark _ _) fun _ => .pure rfl
    · exact bind (oneDeeper h.unary fun _ _ => trivial) fun _ => .pure rfl
  · intro s n t _ _ hst hn ht
    obtain ⟨inner, u, hu, hend⟩ := bind_eq_ok.mp hn
    obtain ⟨-, rfl⟩ := pure_eq_ok.mp hend
    exact (Reads.oneDeeper h.sound.unary hu).bounded hst ht

theorem cast (h : r.Repeats m) : Repeats m State.Bounded State.Open (cast r) (cast r) :=
  bind (.take fun _ hs => hs) fun _ => bind (typeName h) fun _ => bind (.requireMark _ _) fun _ =>
    bind (oneDeeper h.unary fun _ _ => trivial) fun _ => .pure rfl

theorem unary (h : r.Repeats m) : Repeats m State.Bounded P (unary r) (unary r) := by
  refine lookKind (fun kind => ?_) rfl
  split
  · refine .ite (fun _ => ?_) fun _ => .ite (fun _ => ?_) fun _ => operand h
    · exact bind (.take fun s hs => State.open_of_kind hs.2 (by simp)) fun _ =>
        bind (oneDeeper h.unary fun _ _ => trivial) fun _ => .pure rfl
    · exact bind (.take fun s hs => State.open_of_kind hs.2 (by simp)) fun _ =>
        bind (operand h) fun _ => .pure rfl
  · exact (sizeOf h).mono fun s hs => hs.2
  · rw [typeInParens_eq]
    refine .ahead ⟨by simp, by simp⟩ ⟨rfl, rfl⟩ (fun _ _ ht => ht) (fun isType => ?_) ?_
    · refine .ite (fun hparen => (cast h).mono fun s hs => ?_) fun _ => operand h
      exact State.open_of_kind (hs.2 hparen) (by simp)
    · exact fun s n t _ _ hst hn ht => (operand_reads h.sound hn).bounded hst ht

theorem chain (level : Nat) {operand : Parse Node}
    (h : Repeats m State.Bounded Always operand operand) :
    Repeats m State.Bounded Always (chain level operand) (chain level operand) := by
  refine bind h fun first => loop (fun left => lookKind (fun kind => ?_) rfl) rfl
  refine .ite (fun hk => deeper (fun s hs => ?_) fun _ => ?_) fun _ => .pure rfl
  · exact State.open_of_kind hs.2 (by rintro rfl; contradiction)
  · exact bind (.take fun _ hs => hs) fun _ => bind h fun _ => .pure rfl

theorem binary (h : r.Repeats m) (level : Nat) :
    Repeats m State.Bounded Always (binary r level) (binary r level) := by
  induction level with
  | zero => exact unary h
  | succ level ih => exact chain _ ih

theorem conditional (h : r.Repeats m) :
    Repeats m State.Bounded Always (conditional r) (conditional r) := by
  refine bind (binary h 10) fun condition => lookKind (fun kind => ?_) rfl
  refine .ite (fun hk => bind (.take fun s hs => ?_) fun question => ?_) fun _ => .pure rfl
  · exact State.open_of_kind hs.2 (by simp [hk])
  · exact bind h.expression fun _ => bind (.requireMark _ _) fun _ =>
      bind (oneDeeper h.conditional fun _ _ => trivial) fun _ => .pure rfl

theorem expression (h : r.Repeats m) :
    Repeats m State.Bounded P (expression r) (expression r) := by
  refine oneDeeper (bind (conditional h) fun target => lookKind (fun kind => ?_) rfl)
    fun _ _ => trivial
  refine .ite (fun hk => bind (.take fun s hs => ?_) fun op => ?_) fun _ => .pure rfl
  · exact State.open_of_kind hs.2 (by rintro rfl; contradiction)
  · exact bind h.expression fun _ => .pure rfl

end Repeats

end CSurvey.Grammar
