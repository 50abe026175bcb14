import CSurvey.Proofs.Grammar.Locality

/-! # Where items end

An item ends with a token of its own or with the line of a directive. What follows it in a longer
text makes no difference to it. -/

namespace CSurvey.Grammar

open Moves (move)

namespace Repeats

variable {m : Seam} {P L : State → Prop} {α : Type} [Moves α] {r : Rules}

/-! ## Directive lines -/

theorem headerName : Repeats m State.Bounded P headerName headerName := by
  refine bindThen (Q := fun t => t.front.kind = .operator .greater)
    (loop (fun name => lookKind (fun kind => ?_) rfl) rfl) (fun s t name _ h => ?_) fun name => ?_
  · split
    · exact .pure rfl
    · exact .failFound fun _ => rfl
    · exact .failFound fun _ => rfl
    · exact bind (.take fun s hs => State.open_of_kind hs.2 ‹_›) fun _ => .pure rfl
  · -- The loop stops in front of the bracket that closes the name.
    refine loop_ok (I := fun _ => Always) (D := fun _ t => t.front.kind = .operator .greater) ?_
      trivial h
    intro name u turn v _ hv
    obtain ⟨kind, w, hw, hv⟩ := bind_eq_ok.mp hv
    obtain ⟨hkind, rfl⟩ := frontKind_eq_ok.mp hw
    split at hv
    · obtain ⟨rfl, rfl⟩ := pure_eq_ok.mp hv
      exact hkind
    · cases hv
    · cases hv
    · obtain ⟨token, w, -, hv⟩ := bind_eq_ok.mp hv
      obtain ⟨rfl, rfl⟩ := pure_eq_ok.mp hv
      trivial
  · refine .ite (fun _ => .fail rfl) fun _ => bind (.take fun s hs => ?_) fun _ => .pure rfl
    exact State.open_of_kind hs (by simp)

theorem inclusionTarget : Repeats m State.Bounded P inclusionTarget inclusionTarget := by
  refine lookKind (fun kind => ?_) rfl
  split
  · exact bind (.take fun s hs => State.open_of_kind hs.2 (by simp)) fun _ => .pure rfl
  · exact bind (.take fun s hs => State.open_of_kind hs.2 (by simp)) fun _ => headerName
  · exact .failFound fun _ => rfl

theorem inclusion : Repeats m Always State.Open inclusion inclusion :=
  bind (.take fun _ hs => hs) fun _ => bind
    (.onDirectiveLine (Q := Always)
      (bind inclusionTarget fun _ => bind lineTexts fun _ => .pure rfl) fun _ _ => trivial)
    fun _ => .pure rfl

theorem hereAt {M : α → State → Prop} {f f' : Position → Parse α} (hP : ∀ s, P s → s.Open)
    (hf : ∀ l, RepeatsTo m M P (f l) (f' (m.place l))) :
    RepeatsTo m M P (Grammar.here >>= f) (Grammar.here >>= f') :=
  .look (g := Token.location) (fun _ => rfl) (fun l => (hf l).mono fun _ hs => hs.1)
    fun s _ _ hs _ _ _ => hP s hs

theorem macroValue (h : r.Repeats m) :
    Repeats m State.Bounded P (macroValue r) (macroValue r) := by
  refine lookKind (fun kind => .ite (fun _ => ?_) fun _ => .ite (fun _ => .pure rfl) fun hk => ?_)
    rfl
  · exact bind h.expression.anywhere fun _ => .pure rfl
  · simp only [Bool.or_eq_true, decide_eq_true_eq, not_or] at hk
    refine hereAt (fun s hs => State.open_of_kind hs.2 hk.2) fun location =>
      bind lineTexts fun words => .pure ?_
    rw [move_texts]
    rfl

theorem macroDefinition (h : r.Repeats m) :
    Repeats m Always State.Open (macroDefinition r) (macroDefinition r) := by
  refine bind (.take fun _ hs => hs) fun marker => .onDirectiveLine (Q := Always)
    (bind (.require (by simp) _) fun name => bind (macroValue h) fun value =>
      bind lineTexts fun _ => .pure (Node.move_texted ..).symm) fun _ _ => trivial

theorem otherDirective : Repeats m Always State.Open otherDirective otherDirective := by
  refine hereAt (fun _ hs => hs) fun location =>
    bind (.onDirectiveLine (Q := Always) lineTexts fun _ _ => trivial) fun words => .pure ?_
  rw [move_texts]
  rfl

/-! ## Declarations -/

theorem initializer (h : r.Repeats m) :
    Repeats m State.Open P (initializer r) (initializer r) := by
  refine lookOpen fun kind => .ite (fun _ => ?_) fun _ => h.expression.toOpen.anywhere
  refine bind takeFront fun brace => bind (loop (fun items => ?_) rfl) fun items =>
    bind (.requireMark _ _) fun _ => .pure ?_
  · exact lookOpen fun _ => .ite (fun _ => .pure rfl) fun _ =>
      bind (oneDeeper h.initializer fun _ _ => trivial) fun _ => bind (acceptMark _).toOpen fun _ =>
        .ite (fun _ => .pure rfl) fun _ => .pure rfl
  · rw [Node.move_plain, move_reverse]
    rfl

theorem block (h : r.Repeats m) : Repeats m Always P (block r) (block r) := by
  refine bind (.requireMark _ _) fun brace => .closedBy (by simp)
    (Repeats.toClosed (loop (fun found => bind takeComments fun comments => ?_) rfl) (by simp))
    fun found _ => .pure ?_
  · refine lookOpen fun kind => ?_
    split
    · exact .pure (by simp)
    · exact .fail rfl
    · exact bind h.statement.anywhere fun nodes => .pure (by simp)
  · rw [Node.move_plain, move_reverse]
    rfl

theorem declared (h : r.Repeats m) (location : Position) (type : String) (d : Declarator)
    (body : Option Node) :
    Repeats m State.Open P (declared r location type d body)
      (declared r (m.place location) type (move m.place d) (move m.place body)) := by
  unfold Grammar.declared
  rw [Declarator.declaresFunction_move]
  refine .ite (fun _ => .pure ?_) fun _ => bind (accept ⟨by simp, by simp⟩).toOpen fun _ =>
    .ite (fun _ => bind (initializer h) fun value => .pure ?_) fun _ => .pure ?_
  · rw [Node.move_texted, move_cons, move_toList]
    rfl
  · rw [Node.move_texted, move_cons, move_cons, move_toList]
    rfl
  · rw [Node.move_texted, move_cons, move_toList]
    rfl

end Repeats

/-- A declarator has a name. -/
theorem open_of_declarator {r : Rules} {s t : State} {d : Declarator}
    (h : declarator r s = .ok d t) : s.Open := by
  obtain ⟨stars, u, hu, h⟩ := bind_eq_ok.mp h
  refine Backward.back (Composed.leads .pointers hu) ?_
  obtain ⟨kind, v, hv, h⟩ := bind_eq_ok.mp h
  obtain ⟨hkind, rfl⟩ := frontKind_eq_ok.mp hv
  split at h
  · rename_i hname
    exact State.open_of_kind (hkind.trans hname) (by simp)
  · cases h

/-- What a round over the names of a declaration does behind a name that is declared. -/
def behindName (nodes : List Node) : Parse (Turn DeclaredNames) := do
  if ← accept (.delimiter .comma) then pure (.again ⟨nodes, false⟩)
  else pure (.done ⟨nodes, false⟩)

/-- What a round over the names of a declaration does behind a declarator. -/
def behindDeclarator (r : Rules) (location : Position) (type : String) (body : Option Node)
    (nodes : List Node) (d : Declarator) : Parse (Turn DeclaredNames) := do
  if d.declaresFunction && (← frontKind) = .delimiter .leftBrace then
    let code ← block r
    let node := .texted .functionDefinition type location (d.node :: code :: body.toList)
    pure (.done ⟨node :: nodes, true⟩)
  else
    let node ← declared r location type d body
    behindName (node :: nodes)

theorem declaredNames_eq (r : Rules) (location : Position) (type : TypeSpecifier)
    (body : Option Node) :
    declaredNames r location type body = loop
      (fun names => do
        let d ← declarator r
        behindDeclarator r location (d.wholeType type.text)
          (if names.nodes.isEmpty then body else none) names.nodes d)
      ⟨[], false⟩ := rfl

/-- The names of a declaration are closed by a function body, or something follows them. -/
def DeclaredNames.Stands (names : DeclaredNames) (t : State) : Prop :=
  names.closed = true ∨ t.Open

theorem open_of_behindName {nodes : List Node} {s t : State} {turn : Turn DeclaredNames}
    (h : behindName nodes s = .ok turn t)
    (ht : turn.Leaves State.Open DeclaredNames.Stands t) : s.Open := by
  obtain ⟨more, u, hu, h⟩ := bind_eq_ok.mp h
  refine Backward.back (Composed.leads (.accept _) hu) ?_
  split at h
  · obtain ⟨rfl, rfl⟩ := pure_eq_ok.mp h
    exact ht
  · obtain ⟨rfl, rfl⟩ := pure_eq_ok.mp h
    exact ht.resolve_left Bool.false_ne_true

/-- Behind a declarator stands a function body, or what follows the declared name. -/
theorem open_of_behindDeclarator {r : Rules} (hr : r.Composed) {location : Position}
    {type : String} {body : Option Node} {nodes : List Node} {d : Declarator} {s t : State}
    {turn : Turn DeclaredNames} (h : behindDeclarator r location type body nodes d s = .ok turn t)
    (ht : turn.Leaves State.Open DeclaredNames.Stands t) : s.Open := by
  obtain ⟨kind, u, hu, h⟩ := bind_eq_ok.mp h
  obtain ⟨hkind, rfl⟩ := frontKind_eq_ok.mp hu
  split at h
  · rename_i hbrace
    simp only [Bool.and_eq_true, decide_eq_true_eq] at hbrace
    exact State.open_of_kind (hkind.trans hbrace.2) (by simp)
  · obtain ⟨node, v, hv, h⟩ := bind_eq_ok.mp h
    exact Backward.back (Composed.leads (.relax (.declared hr _ _ _ _)) hv)
      (open_of_behindName h ht)

namespace RepeatsTo

variable {m : Seam} {P : State → Prop} {r : Rules}

theorem behindName (nodes : List Node) :
    RepeatsTo m (Turn.Leaves State.Open DeclaredNames.Stands) P (behindName nodes)
      (behindName (move m.place nodes)) := by
  refine .bindTo (Repeats.acceptMark _).toOpen (fun _ _ _ _ _ => trivial)
    (fun more => .ite (fun _ => .pure rfl) fun _ => .pure rfl) fun more s turn t _ hturn ht => ?_
  split at hturn
  · obtain ⟨rfl, rfl⟩ := pure_eq_ok.mp hturn
    exact ht
  · obtain ⟨rfl, rfl⟩ := pure_eq_ok.mp hturn
    exact ht.resolve_left Bool.false_ne_true

theorem behindDeclarator (h : r.Repeats m) (location : Position) (type : String)
    (body : Option Node) (nodes : List Node) (d : Declarator) :
    RepeatsTo m (Turn.Leaves State.Open DeclaredNames.Stands) P
      (behindDeclarator r location type body nodes d)
      (behindDeclarator r (m.place location) type (move m.place body) (move m.place nodes)
        (move m.place d)) := by
  unfold Grammar.behindDeclarator
  rw [Declarator.declaresFunction_move]
  refine .look (fun _ => rfl) (fun kind => .ite (fun _ => ?_) fun _ => ?_)
    fun s turn t _ _ hturn ht => open_of_behindDeclarator h.sound.composed hturn ht
  · refine .relax (Repeats.bind (Repeats.block h) fun code => .pure ?_) fun _ _ _ => trivial
    show Turn.done (DeclaredNames.mk (_ :: move m.place nodes) true) =
      .done ⟨move m.place (_ :: nodes), true⟩
    rw [move_cons, Node.move_texted, move_cons, move_cons, move_toList]
    rfl
  · exact .bindTo (Repeats.declared h _ _ _ _) (fun _ _ _ _ _ => trivial)
      (fun node => behindName (node :: nodes)) fun _ _ _ _ _ hturn ht =>
        open_of_behindName hturn ht

theorem declaredNames (h : r.Repeats m) (location : Position) (type : TypeSpecifier)
    (body : Option Node) :
    RepeatsTo m DeclaredNames.Stands P (declaredNames r location type body)
      (declaredNames r (m.place location) (move m.place type) (move m.place body)) := by
  rw [declaredNames_eq, declaredNames_eq]
  refine .loopTo (K := State.Open) (fun names => ?_) (fun names s turn t _ hturn _ => ?_) rfl
  · refine .bindTo (Repeats.declarator h) (fun _ _ _ _ _ => trivial) (fun d => ?_)
      fun d s turn t _ hturn ht => open_of_behindDeclarator h.sound.composed hturn ht
    have hbody : (if (move m.place names).nodes.isEmpty then move m.place body else none) =
        move m.place (if names.nodes.isEmpty then body else none) := by
      show (if (move m.place names.nodes).isEmpty then _ else _) = _
      rw [isEmpty_move]
      split
      · rfl
      · rfl
    rw [hbody]
    exact behindDeclarator h _ _ _ _ _
  · obtain ⟨d, u, hd, -⟩ := bind_eq_ok.mp hturn
    exact open_of_declarator hd

/-- Either the token is taken, or something is asked to follow. -/
theorem accept {kind : Token.Kind} (hk : kind ≠ .endOfInput) :
    RepeatsTo m (fun taken t => taken = true ∨ t.Open) P (accept kind) (accept kind) := by
  refine .look (fun _ => rfl) (fun k => .ite (fun h => ?_) fun _ => .pure rfl)
    fun s taken t _ _ htaken ht => ?_
  · exact .relax (Repeats.bind (.take fun s hs => State.open_of_kind hs.2 (h ▸ hk)) fun _ =>
      .pure rfl) (K := fun _ => Always) fun _ _ _ => trivial
  · split at htaken
    · rename_i hfront
      exact State.open_of_kind hfront hk
    · obtain ⟨rfl, rfl⟩ := pure_eq_ok.mp htaken
      exact ht.resolve_left Bool.false_ne_true

end RepeatsTo

/-- A loop that comes to a result has had a first round. -/
theorem loop_first {α : Type} {round : α → Parse (Turn α)} {a b : α} {s t : State}
    (h : loop round a s = .ok b t) : ∃ turn u, round a s = .ok turn u := by
  unfold loop at h
  generalize s.rest = fuel at h
  induction h using rounds_induction with
  | done hturn => exact ⟨_, _, hturn⟩
  | again _ hturn _ => exact ⟨_, _, hturn⟩

/-- The names of a declaration and what closes them. -/
def namesWhole (r : Rules) (location : Position) (type : TypeSpecifier) : Parse (List Node) := do
  let body := type.structNode.filter fun n => n.kind = .structDefinition
  let names ← declaredNames r location type body
  if names.closed then pure names.nodes.reverse
  else
    let _ ← requireMark .semicolon .afterDeclaration
    pure names.nodes.reverse

theorem open_of_namesWhole {r : Rules} {location : Position} {type : TypeSpecifier}
    {s t : State} {nodes : List Node} (h : namesWhole r location type s = .ok nodes t) :
    s.Open := by
  obtain ⟨names, u, hu, -⟩ := bind_eq_ok.mp h
  obtain ⟨turn, v, hv⟩ := loop_first hu
  obtain ⟨d, w, hd, -⟩ := bind_eq_ok.mp hv
  exact open_of_declarator hd

namespace Repeats

variable {m : Seam} {P L : State → Prop} {α : Type} [Moves α] {r : Rules}

theorem namesWhole (h : r.Repeats m) (location : Position) (type : TypeSpecifier) :
    Repeats m Always P (namesWhole r location type)
      (namesWhole r (m.place location) (move m.place type)) := by
  have hbody : (move m.place type).structNode.filter (fun n => n.kind = .structDefinition) =
      move m.place (type.structNode.filter fun n => n.kind = .structDefinition) := by
    obtain ⟨text, _ | node⟩ := type
    · rfl
    · show (some (move m.place node)).filter _ = move m.place ((some node).filter _)
      rw [Option.filter_some, Option.filter_some, Node.move_kind]
      split
      · rfl
      · rfl
  unfold Grammar.namesWhole
  rw [hbody]
  refine .bindTo (.declaredNames h _ _ _) (fun _ _ _ _ _ => trivial) (fun names => ?_)
    fun names s nodes t _ hnodes _ => ?_
  · exact .ite (fun _ => .pure (move_reverse _).symm) fun _ =>
      bind (.requireMark _ _) fun _ => .pure (move_reverse _).symm
  · split at hnodes
    · exact .inl ‹_›
    · obtain ⟨token, u, hu, -⟩ := bind_eq_ok.mp hnodes
      exact .inr (RepeatsTo.open_of_require (by simp) hu).2

theorem declaration (h : r.Repeats m) :
    Repeats m Always State.Open (declaration r) (declaration r) := by
  refine hereAt (fun _ hs => hs) fun location =>
    .bindTo (typeSpecifier h).toOpen (fun _ _ _ _ _ => trivial) (fun type => ?_)
      fun type s nodes t _ hnodes _ => ?_
  · refine .bindTo (.accept (by simp)) (fun _ _ _ _ _ => trivial) (fun taken => ?_)
      fun taken s nodes t _ hnodes _ => ?_
    · exact .ite (fun _ => .pure (move_toList _).symm) fun _ => namesWhole h location type
    · split at hnodes
      · exact .inl ‹_›
      · exact .inr (open_of_namesWhole hnodes)
  · obtain ⟨taken, u, hu, hnodes⟩ := bind_eq_ok.mp hnodes
    rcases accept_eq_ok.mp hu with ⟨hfront, -, -⟩ | ⟨-, rfl, rfl⟩
    · exact State.open_of_kind hfront (by simp)
    · exact open_of_namesWhole hnodes

/-! ## Statements -/

theorem asSingle_move {f : Position → Position} (location : Position) (nodes : List Node) :
    asSingle (f location) (move f nodes) = move f (asSingle location nodes) := by
  rcases nodes with _ | ⟨n, _ | ⟨n', ns⟩⟩
  · rfl
  · rfl
  · exact (Node.move_plain .block location (n :: n' :: ns)).symm

theorem singleStatement (h : r.Repeats m) :
    Repeats m State.Open P (singleStatement r) (singleStatement r) :=
  bind here fun _ => bind h.statement fun _ => .pure (asSingle_move _ _)

theorem condition (h : r.Repeats m) (word : String) (place : Place) :
    Repeats m State.Open P (condition r word place) (condition r word place) :=
  bind (.requireMark _ _) fun _ => bind h.expression.toOpen fun _ =>
    bind (.requireMark _ _) fun _ => .pure rfl

theorem ifStatement (h : r.Repeats m) :
    Repeats m State.Open P (ifStatement r) (ifStatement r) :=
  bind takeFront fun _ => bind (condition h _ _) fun _ => bind (singleStatement h) fun _ =>
    bind (accept ⟨by simp, by simp⟩).toOpen fun _ =>
      .ite (fun _ => bind (singleStatement h) fun _ => .pure rfl) fun _ => .pure rfl

theorem forStart (h : r.Repeats m) : Repeats m State.Open P (forStart r) (forStart r) := by
  refine bind here fun location => bind (acceptMark _).toOpen fun _ => .ite (fun _ => .pure rfl)
    fun _ => lookOpen fun kind => .ite (fun hk => ?_) fun _ => ?_
  · refine bind (.relax ((declaration h).mono fun s hs => State.open_of_kind hs.2 ?_)
      fun _ _ _ => trivial) fun nodes => ?_
    · rintro rfl
      contradiction
    · rcases nodes with _ | ⟨n, _ | ⟨n', ns⟩⟩
      · exact .pure rfl
      · exact .pure rfl
      · exact .pure (Node.move_plain .block location (n :: n' :: ns)).symm
  · exact bind h.expression.toOpen.anywhere fun _ => bind (.requireMark _ _) fun _ => .pure rfl

theorem optionalBefore (h : r.Repeats m) (mark : Token.Delimiter) :
    Repeats m State.Open P (optionalBefore r mark) (optionalBefore r mark) :=
  lookOpen fun _ => .ite (fun _ => bind here fun _ => .pure rfl) fun _ =>
    h.expression.toOpen.anywhere

theorem forStatement (h : r.Repeats m) :
    Repeats m State.Open P (forStatement r) (forStatement r) :=
  bind takeFront fun _ => bind (.requireMark _ _) fun _ => bind (forStart h) fun _ =>
    bind (optionalBefore h _) fun _ => bind (.requireMark _ _) fun _ =>
    bind (optionalBefore h _) fun _ => bind (.requireMark _ _) fun _ =>
    bind (singleStatement h) fun _ => .pure rfl

theorem whileStatement (h : r.Repeats m) :
    Repeats m State.Open P (whileStatement r) (whileStatement r) :=
  bind takeFront fun _ => bind (condition h _ _) fun _ => bind (singleStatement h) fun _ =>
    .pure rfl

theorem doWhileStatement (h : r.Repeats m) :
    Repeats m State.Open P (doWhileStatement r) (doWhileStatement r) :=
  bind takeFront fun _ => bind (singleStatement h) fun _ => bind (.require (by simp) _) fun _ =>
    bind (condition h _ _) fun _ => bind (.requireMark _ _) fun _ => .pure rfl

theorem switchStatement (h : r.Repeats m) :
    Repeats m State.Open P (switchStatement r) (switchStatement r) :=
  bind takeFront fun _ => bind (condition h _ _) fun _ => bind (singleStatement h) fun _ =>
    .pure rfl

theorem caseLabel (h : r.Repeats m) : Repeats m State.Open P (caseLabel r) (caseLabel r) :=
  bind takeFront fun _ => bind h.expression.toOpen fun _ => bind (.requireMark _ _) fun _ =>
    .pure rfl

theorem defaultLabel : Repeats m State.Open P defaultLabel defaultLabel :=
  bind takeFront fun _ => bind (.requireMark _ _) fun _ => .pure rfl

theorem label : Repeats m State.Open P label label :=
  bind takeFront fun _ => bind (.requireMark _ _) fun _ => .pure rfl

theorem returnStatement (h : r.Repeats m) :
    Repeats m State.Open P (returnStatement r) (returnStatement r) :=
  bind takeFront fun _ => lookOpen fun _ => .ite
    (fun _ => bind (.requireMark _ _) fun _ => .pure rfl)
    fun _ => bind h.expression.toOpen.anywhere fun _ => bind (.requireMark _ _) fun _ => .pure rfl

theorem jump (kind : Node.Kind) (word : String) :
    Repeats m State.Open P (jump kind word) (jump kind word) :=
  bind takeFront fun _ => bind (.requireMark _ _) fun _ => .pure rfl

theorem gotoStatement : Repeats m State.Open P gotoStatement gotoStatement :=
  bind takeFront fun _ => bind (.require (by simp) _) fun _ => bind (.requireMark _ _) fun _ =>
    .pure rfl

theorem expressionStatement (h : r.Repeats m) :
    Repeats m State.Open P (expressionStatement r) (expressionStatement r) :=
  bind here fun _ => bind h.expression.toOpen fun _ => bind (.requireMark _ _) fun _ => .pure rfl

theorem one [Backward L] {p : Parse Node} (h : Repeats m L P p p) :
    Repeats m L P (one p) (one p) :=
  bind h fun _ => .pure rfl

theorem labelAhead_eq :
    labelAhead = ahead .identifier fun k => k = .delimiter .colon := rfl

/-- Behind a name that opens an expression there is more to come: at least its semicolon. -/
theorem openStatement (h : r.Repeats m) (kind : Token.Kind) :
    Repeats m State.Open (fun s => s.front.kind = kind) (openStatement r kind)
      (openStatement r kind) := by
  unfold Grammar.openStatement
  rw [labelAhead_eq]
  refine .ahead ⟨by simp, by simp⟩ ⟨rfl, rfl⟩ (fun _ _ ht => .inl ht) (fun isLabel => ?_)
    fun s nodes t hs hname _ hnodes _ => ?_
  · refine .ite (fun _ => one label) fun _ => .ite (fun hk => ?_) fun _ => .ite (fun _ => ?_)
      fun _ => .ite (fun _ => .failFound fun _ => rfl) fun _ => bind takeFront fun _ => .pure rfl
    · refine .relax ((declaration h).mono fun s hs => State.open_of_kind hs.1 ?_)
        fun _ _ _ => trivial
      rintro rfl
      contradiction
    · exact one (expressionStatement h)
  · obtain rfl : kind = .identifier := hs.symm.trans hname
    obtain ⟨n, u, hu, -⟩ := bind_eq_ok.mp hnodes
    obtain ⟨location, v, hv, hu⟩ := bind_eq_ok.mp hu
    obtain ⟨-, rfl⟩ := EStateM.Result.ok.inj hv
    obtain ⟨value, w, hw, hu⟩ := bind_eq_ok.mp hu
    obtain ⟨token, x, hx, -⟩ := bind_eq_ok.mp hu
    have hfront := (RepeatsTo.open_of_require (by simp) hx).1
    have hleads : s.Leads w := (Composed.relax h.sound.composed.expression).leads hw
    exact .inl (hleads.open_dropFront (by simp [hfront]) (by simp [hfront, hname]))

theorem statementOf (h : r.Repeats m) (kind : Token.Kind) :
    Repeats m State.Open (fun s => s.front.kind = kind) (statementOf r kind)
      (statementOf r kind) := by
  have hwhole : ∀ {p : Parse Node}, Repeats m Always State.Open p p → kind ≠ .endOfInput →
      Repeats m State.Open (fun s => s.front.kind = kind) (Grammar.one p) (Grammar.one p) :=
    fun hp hk => one (.relax (hp.mono fun s hs => State.open_of_kind hs hk) fun _ _ _ => trivial)
  unfold Grammar.statementOf
  split
  · exact one (ifStatement h)
  · exact one (forStatement h)
  · exact one (whileStatement h)
  · exact one (doWhileStatement h)
  · exact one (switchStatement h)
  · exact one (caseLabel h)
  · exact one defaultLabel
  · exact one (returnStatement h)
  · exact one (jump _ _)
  · exact one (jump _ _)
  · exact one gotoStatement
  · exact hwhole (block h) (by simp)
  · exact hwhole inclusion (by simp)
  · exact hwhole (macroDefinition h) (by simp)
  · exact hwhole otherDirective (by simp)
  · exact openStatement h _

theorem statement (h : r.Repeats m) : Repeats m State.Open P (statement r) (statement r) :=
  oneDeeper (Q := Always) (lookOpen fun kind => (statementOf h kind).mono fun _ hs => hs.2)
    fun _ _ => trivial

/-! ## Items -/

/-- What follows an item makes no difference to it. -/
theorem item (h : r.Repeats m) : Repeats m Always State.Open (item r) (item r) := by
  refine lookAt (fun _ hs => hs) fun kind => .ite (fun _ => ?_) fun _ => .ite (fun _ => ?_)
    fun _ => .ite (fun _ => ?_) fun _ => .ite (fun _ => ?_) fun _ => ?_
  · exact one (inclusion.mono fun _ hs => hs.1)
  · exact one ((macroDefinition h).mono fun _ hs => hs.1)
  · exact one (otherDirective.mono fun _ hs => hs.1)
  · exact (declaration h).mono fun _ hs => hs.1
  · exact bind (.take fun _ hs => hs.1) fun _ => .pure rfl

end Repeats

/-- The rules of the grammar do in a longer text what they do in the text at hand. -/
theorem Rules.level_repeats (m : Seam) (levels : Nat) : (Rules.level levels).Repeats m := by
  induction levels with
  | zero =>
      exact ⟨Rules.level_sound 0, .fail rfl, .fail rfl, .fail rfl, .fail rfl, .fail rfl, .fail rfl⟩
  | succ levels ih =>
      exact ⟨Rules.level_sound _, Grammar.Repeats.expression ih, Grammar.Repeats.conditional ih,
        Grammar.Repeats.unary ih, Grammar.Repeats.initializer ih,
        Grammar.Repeats.structSpecifier ih, Grammar.Repeats.statement ih⟩

end CSurvey.Grammar
