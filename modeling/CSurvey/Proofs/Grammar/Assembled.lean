import CSurvey.Grammar.Program

/-! # What stands around struct bodies

Notes are made in struct bodies only, and only operators go deeper without coming back. A property
of readers that the other single steps have, and that putting readers together keeps, so holds of
every rule once it holds of these. -/

namespace CSurvey.Grammar

/-- The readers that are put together from single steps that make no notes and stay as deep as they
are, and from given parts. -/
inductive Assembled (Part : (α : Type) → Parse α → Prop) : {α : Type} → Parse α → Prop where
  | part {α : Type} {p : Parse α} : Part α p → Assembled Part p
  | pure {α : Type} (a : α) : Assembled Part (pure a)
  | bind {α β : Type} {p : Parse α} {f : α → Parse β} :
      Assembled Part p → (∀ a, Assembled Part (f a)) → Assembled Part (p >>= f)
  /-- The state is looked at. -/
  | look {α : Type} (f : State → α) : Assembled Part fun s => .ok (f s) s
  | stop {α : Type} (f : State → Failure) : Assembled Part (α := α) fun s => .error (f s) s
  | takeFront : Assembled Part takeFront
  | takeComments : Assembled Part takeComments
  | oneDeeper {α : Type} {p : Parse α} : Assembled Part p → Assembled Part (oneDeeper p)
  | onDirectiveLine {α : Type} {p : Parse α} :
      Assembled Part p → Assembled Part (onDirectiveLine p)
  | loop {α : Type} {round : α → Parse (Turn α)} {value : α} :
      (∀ a, Assembled Part (round a)) → Assembled Part (loop round value)

/-- Rules that are put together from single steps and given parts. Nothing is said of the rules that
only expressions use. -/
structure Rules.Assembled (Part : (α : Type) → Parse α → Prop) (r : Rules) : Prop where
  expression : Grammar.Assembled Part r.expression
  initializer : Grammar.Assembled Part r.initializer
  structSpecifier : Grammar.Assembled Part r.structSpecifier
  statement : Grammar.Assembled Part r.statement

/-- The same of all rules. -/
structure Rules.FullyAssembled (Part : (α : Type) → Parse α → Prop) (r : Rules) : Prop
    extends r.Assembled Part where
  conditional : Grammar.Assembled Part r.conditional
  unary : Grammar.Assembled Part r.unary

namespace Assembled

variable {Part : (α : Type) → Parse α → Prop} {r : Rules}

/-! ## Single steps -/

theorem front : Assembled Part front := .look State.front

theorem frontKind : Assembled Part frontKind := .look fun s => s.front.kind

theorem secondKind : Assembled Part secondKind := .look fun s => s.second.kind

theorem here : Assembled Part here := .look fun s => s.front.location

theorem ite {α : Type} {c : Prop} [Decidable c] {p q : Parse α} (hp : Assembled Part p)
    (hq : Assembled Part q) : Assembled Part (if c then p else q) := by
  split
  · exact hp
  · exact hq

theorem accept (kind : Token.Kind) : Assembled Part (accept kind) :=
  .bind .frontKind fun _ => .ite (.bind .takeFront fun _ => .pure _) (.pure _)

theorem require (kind : Token.Kind) (place : Place) : Assembled Part (require kind place) :=
  .bind .frontKind fun _ => .ite .takeFront (.stop _)

theorem requireMark (mark : Token.Delimiter) (place : Place) :
    Assembled Part (requireMark mark place) := .require _ _

theorem commaSeparated {α : Type} {p : Parse α} (hp : Assembled Part p) :
    Assembled Part (commaSeparated p) :=
  .bind (.loop fun _ => .bind hp fun _ => .bind (.accept _) fun _ => .ite (.pure _) (.pure _))
    fun _ => .pure _

theorem lineTexts : Assembled Part lineTexts := by
  refine .bind (.loop fun found => .bind .frontKind fun kind => ?_) fun _ => .pure _
  split
  · exact .pure _
  · exact .pure _
  · exact .bind .takeFront fun _ => .pure _

/-! ## Types and declarators -/

theorem typeSpecifier (h : r.Assembled Part) : Assembled Part (typeSpecifier r) :=
  .bind (.bind (.loop fun _ => .bind .frontKind fun _ =>
      .ite (.bind .takeFront fun _ => .pure _) (.pure _)) fun _ => .pure _) fun _ =>
    .bind .frontKind fun _ => .ite (.bind .takeFront fun _ => .pure _) <|
      .ite (.bind h.structSpecifier fun _ => .pure _) <| .ite (.stop _) (.pure _)

theorem typeName (h : r.Assembled Part) : Assembled Part (typeName r) :=
  .bind (.typeSpecifier h) fun _ =>
    .loop fun _ => .bind (.accept _) fun _ => .ite (.pure _) (.pure _)

theorem skipQualifiers : Assembled Part skipQualifiers := by
  refine .loop fun _ => .bind .frontKind fun kind => ?_
  split
  · exact .bind .takeFront fun _ => .pure _
  · exact .bind .takeFront fun _ => .pure _
  · exact .pure _

theorem pointers : Assembled Part pointers :=
  .loop fun _ => .bind (.accept _) fun _ =>
    .ite (.bind .skipQualifiers fun _ => .pure _) (.pure _)

theorem arraySizes (h : r.Assembled Part) : Assembled Part (arraySizes r) :=
  .bind (.loop fun _ => .bind .frontKind fun _ => .ite (.bind
    (.bind .takeFront fun _ => .bind (.accept _) fun _ => .ite (.pure _) <|
      .bind h.expression fun _ => .bind (.requireMark _ _) fun _ => .pure _)
    fun _ => .pure _) (.pure _)) fun _ => .pure _

theorem parameterSizes (h : r.Assembled Part) (type : String) :
    Assembled Part (parameterSizes r type) := by
  refine .loop fun type => .bind (.accept _) fun _ =>
    .ite (.bind .frontKind fun _ => .ite ?_ ?_) (.pure _)
  · exact .bind (.pure _) fun _ => .bind (.requireMark _ _) fun _ => .pure _
  · exact .bind h.expression fun _ => .bind (.pure _) fun _ =>
      .bind (.requireMark _ _) fun _ => .pure _

theorem parameter (h : r.Assembled Part) : Assembled Part (parameter r) :=
  .bind .here fun _ => .bind .frontKind fun _ => .ite
    (.bind (.typeName h) fun _ =>
      .bind (.bind .frontKind fun _ => .ite (.bind .takeFront fun _ => .pure _) (.pure _)) fun _ =>
      .bind (.parameterSizes h _) fun _ => .pure _)
    (.stop _)

theorem ellipsis : Assembled Part ellipsis :=
  .bind .here fun _ => .bind (.requireMark _ _) fun _ => .bind (.requireMark _ _) fun _ =>
    .bind (.requireMark _ _) fun _ => .pure _

theorem parameters (h : r.Assembled Part) : Assembled Part (parameters r) := by
  refine .bind (.loop fun _ => .bind .frontKind fun _ => .ite ?_ ?_) fun _ => .pure _
  · exact .bind .ellipsis fun _ => .pure _
  · exact .bind (.parameter h) fun _ => .bind (.accept _) fun _ => .ite (.pure _) (.pure _)

theorem parameterList (h : r.Assembled Part) : Assembled Part (parameterList r) :=
  .bind .frontKind fun _ => .bind .secondKind fun _ => .ite (.pure _) <|
    .ite (.bind .takeFront fun _ => .pure _) (.parameters h)

theorem declarator (h : r.Assembled Part) : Assembled Part (declarator r) := by
  refine .bind .pointers fun _ => .bind .frontKind fun _ => .ite ?_ (.stop _)
  refine .bind .takeFront fun _ => .bind (.accept _) fun _ => .ite ?_ ?_
  · exact .bind (.parameterList h) fun _ => .bind (.requireMark _ _) fun _ => .pure _
  · exact .bind (.arraySizes h) fun _ => .pure _

theorem structMembers (h : r.Assembled Part) : Assembled Part (structMembers r) :=
  .bind .here fun _ => .bind (.typeSpecifier h) fun _ =>
    .bind (.commaSeparated (.declarator h)) fun _ => .bind (.requireMark _ _) fun _ => .pure _

theorem structSpecifier (hbody : ∀ tag, Part _ (structBody r tag)) :
    Assembled Part (structSpecifier r) := by
  refine .bind .takeFront fun _ => .bind .frontKind fun _ => .ite ?_ (.stop _)
  refine .bind .takeFront fun _ => .bind (.accept _) fun _ => .ite ?_ (.pure _)
  exact .bind (.part (hbody _)) fun _ => .bind (.requireMark _ _) fun _ => .pure _

/-! ## Expressions -/

theorem primary (h : r.Assembled Part) : Assembled Part (primary r) := by
  refine .bind .front fun token => ?_
  split
  · refine .bind .takeFront fun _ => ?_
    split
    · exact .pure _
    · exact .stop _
  · exact .bind .takeFront fun _ => .bind (.loop fun _ => .bind .frontKind fun _ =>
      .ite (.bind .takeFront fun _ => .pure _) (.pure _)) fun _ => .pure _
  · exact .bind .takeFront fun _ => .pure _
  · exact .bind .takeFront fun _ => .pure _
  · exact .bind .takeFront fun _ => .bind h.expression fun _ =>
      .bind (.requireMark _ _) fun _ => .pure _
  · exact .stop _

theorem memberOf (kind : Node.Kind) (operand : Node) : Assembled Part (memberOf kind operand) :=
  .bind .takeFront fun _ => .bind (.require _ _) fun _ => .pure _

theorem continued (h : r.Assembled Part) (operand : Node) :
    Assembled Part (continued r operand) := by
  refine .bind .frontKind fun kind => ?_
  split
  · exact .bind .takeFront fun _ => .bind h.expression fun _ =>
      .bind (.requireMark _ _) fun _ => .pure _
  · exact .bind .takeFront fun _ =>
      .bind (.bind .frontKind fun _ => .ite (.pure _) (.commaSeparated h.expression)) fun _ =>
      .bind (.requireMark _ _) fun _ => .pure _
  · exact .memberOf _ _
  · exact .memberOf _ _
  · exact .bind .takeFront fun _ => .pure _

theorem operand (hdeeper : Part _ goDeeper) (h : r.Assembled Part) : Assembled Part (operand r) :=
  .bind (.primary h) fun _ => .loop fun _ => .bind .frontKind fun _ =>
    .ite (.bind (.part hdeeper) fun _ => .bind (.continued h _) fun _ => .pure _) (.pure _)

theorem typeInParens : Assembled Part typeInParens :=
  .bind .frontKind fun _ => .bind .secondKind fun _ => .pure _

theorem sizeOf (h : r.FullyAssembled Part) : Assembled Part (sizeOf r) := by
  refine .bind .takeFront fun _ => .bind .typeInParens fun _ => .ite ?_ ?_
  · exact .bind .takeFront fun _ => .bind (.typeName h.toAssembled) fun _ =>
      .bind (.requireMark _ _) fun _ => .pure _
  · exact .bind (.oneDeeper h.unary) fun _ => .pure _

theorem cast (h : r.FullyAssembled Part) : Assembled Part (cast r) :=
  .bind .takeFront fun _ => .bind (.typeName h.toAssembled) fun _ =>
    .bind (.requireMark _ _) fun _ => .bind (.oneDeeper h.unary) fun _ => .pure _

theorem unary (hdeeper : Part _ goDeeper) (h : r.FullyAssembled Part) :
    Assembled Part (unary r) := by
  have hoperand := operand hdeeper h.toAssembled
  refine .bind .frontKind fun kind => ?_
  split
  · refine .ite ?_ <| .ite ?_ hoperand
    · exact .bind .takeFront fun _ => .bind (.oneDeeper h.unary) fun _ => .pure _
    · exact .bind .takeFront fun _ => .bind hoperand fun _ => .pure _
  · exact .sizeOf h
  · exact .bind .typeInParens fun _ => .ite (.cast h) hoperand

theorem binary (hdeeper : Part _ goDeeper) (h : r.FullyAssembled Part) (level : Nat) :
    Assembled Part (binary r level) := by
  induction level with
  | zero => exact .unary hdeeper h
  | succ level ih =>
      refine .bind ih fun _ => .loop fun _ => .bind .frontKind fun _ => .ite ?_ (.pure _)
      exact .bind (.part hdeeper) fun _ => .bind .takeFront fun _ => .bind ih fun _ => .pure _

theorem conditional (hdeeper : Part _ goDeeper) (h : r.FullyAssembled Part) :
    Assembled Part (conditional r) :=
  .bind (.binary hdeeper h 10) fun _ => .bind .frontKind fun _ => .ite
    (.bind .takeFront fun _ => .bind h.expression fun _ => .bind (.requireMark _ _) fun _ =>
      .bind (.oneDeeper h.conditional) fun _ => .pure _)
    (.pure _)

theorem expression (hdeeper : Part _ goDeeper) (h : r.FullyAssembled Part) :
    Assembled Part (expression r) :=
  .oneDeeper <| .bind (.conditional hdeeper h) fun _ => .bind .frontKind fun _ => .ite
    (.bind .takeFront fun _ => .bind h.expression fun _ => .pure _) (.pure _)

theorem initializer (h : r.Assembled Part) : Assembled Part (initializer r) := by
  refine .bind .frontKind fun _ => .ite ?_ h.expression
  refine .bind .takeFront fun _ => .bind (.loop fun _ => ?_) fun _ =>
    .bind (.requireMark _ _) fun _ => .pure _
  exact .bind .frontKind fun _ => .ite (.pure _) <|
    .bind (.oneDeeper h.initializer) fun _ => .bind (.accept _) fun _ => .ite (.pure _) (.pure _)

/-! ## Directive lines -/

theorem headerName : Assembled Part headerName := by
  refine .bind (.loop fun name => .bind .frontKind fun kind => ?_) fun name =>
    .ite (.stop _) (.bind .takeFront fun _ => .pure _)
  split
  · exact .pure _
  · exact .stop _
  · exact .stop _
  · exact .bind .takeFront fun _ => .pure _

theorem inclusion : Assembled Part inclusion := by
  refine .bind .takeFront fun _ => .bind (.onDirectiveLine <|
    .bind (.bind .frontKind fun kind => ?_) fun _ => .bind .lineTexts fun _ => .pure _)
    fun _ => .pure _
  split
  · exact .bind .takeFront fun _ => .pure _
  · exact .bind .takeFront fun _ => .headerName
  · exact .stop _

theorem macroDefinition (h : r.Assembled Part) : Assembled Part (macroDefinition r) :=
  .bind .takeFront fun _ => .onDirectiveLine <| .bind (.require _ _) fun _ =>
    .bind (.bind .frontKind fun _ => .ite (.bind h.expression fun _ => .pure _) <|
      .ite (.pure _) (.bind .here fun _ => .bind .lineTexts fun _ => .pure _)) fun _ =>
    .bind .lineTexts fun _ => .pure _

theorem otherDirective : Assembled Part otherDirective :=
  .bind .here fun _ => .bind (.onDirectiveLine .lineTexts) fun _ => .pure _

/-! ## Statements and declarations -/

theorem block (h : r.Assembled Part) : Assembled Part (block r) := by
  refine .bind (.requireMark _ _) fun _ => .bind (.loop fun found => ?_) fun _ =>
    .bind (.requireMark _ _) fun _ => .pure _
  refine .bind .takeComments fun _ => .bind .frontKind fun kind => ?_
  split
  · exact .pure _
  · exact .stop _
  · exact .bind h.statement fun _ => .pure _

theorem declared (h : r.Assembled Part) (location : Position) (type : String) (d : Declarator)
    (body : Option Node) : Assembled Part (declared r location type d body) :=
  .ite (.pure _) <| .bind (.accept _) fun _ =>
    .ite (.bind (.initializer h) fun _ => .pure _) (.pure _)

theorem declaredNames (h : r.Assembled Part) (location : Position) (type : TypeSpecifier)
    (body : Option Node) : Assembled Part (declaredNames r location type body) := by
  refine .loop fun names => .bind (.declarator h) fun d => .bind .frontKind fun _ => .ite ?_ ?_
  · exact .bind (.block h) fun _ => .pure _
  · exact .bind (.declared h _ _ _ _) fun _ => .bind (.accept _) fun _ => .ite (.pure _) (.pure _)

theorem declaration (h : r.Assembled Part) : Assembled Part (declaration r) :=
  .bind .here fun _ => .bind (.typeSpecifier h) fun _ => .bind (.accept _) fun _ =>
    .ite (.pure _) <| .bind (.declaredNames h _ _ _) fun _ =>
      .ite (.pure _) (.bind (.requireMark _ _) fun _ => .pure _)

theorem singleStatement (h : r.Assembled Part) : Assembled Part (singleStatement r) :=
  .bind .here fun _ => .bind h.statement fun _ => .pure _

theorem condition (h : r.Assembled Part) (word : String) (place : Place) :
    Assembled Part (condition r word place) :=
  .bind (.requireMark _ _) fun _ => .bind h.expression fun _ =>
    .bind (.requireMark _ _) fun _ => .pure _

theorem ifStatement (h : r.Assembled Part) : Assembled Part (ifStatement r) :=
  .bind .takeFront fun _ => .bind (.condition h _ _) fun _ => .bind (.singleStatement h) fun _ =>
    .bind (.accept _) fun _ => .ite (.bind (.singleStatement h) fun _ => .pure _) (.pure _)

theorem forStart (h : r.Assembled Part) : Assembled Part (forStart r) := by
  refine .bind .here fun _ => .bind (.accept _) fun _ => .ite (.pure _) <|
    .bind .frontKind fun _ => .ite (.bind (.declaration h) fun nodes => ?_) ?_
  · split
    · exact .pure _
    · exact .pure _
  · exact .bind h.expression fun _ => .bind (.requireMark _ _) fun _ => .pure _

theorem optionalBefore (h : r.Assembled Part) (mark : Token.Delimiter) :
    Assembled Part (optionalBefore r mark) :=
  .bind .frontKind fun _ => .ite (.bind .here fun _ => .pure _) h.expression

theorem forStatement (h : r.Assembled Part) : Assembled Part (forStatement r) :=
  .bind .takeFront fun _ => .bind (.requireMark _ _) fun _ => .bind (.forStart h) fun _ =>
    .bind (.optionalBefore h _) fun _ => .bind (.requireMark _ _) fun _ =>
    .bind (.optionalBefore h _) fun _ => .bind (.requireMark _ _) fun _ =>
    .bind (.singleStatement h) fun _ => .pure _

theorem whileStatement (h : r.Assembled Part) : Assembled Part (whileStatement r) :=
  .bind .takeFront fun _ => .bind (.condition h _ _) fun _ =>
    .bind (.singleStatement h) fun _ => .pure _

theorem doWhileStatement (h : r.Assembled Part) : Assembled Part (doWhileStatement r) :=
  .bind .takeFront fun _ => .bind (.singleStatement h) fun _ => .bind (.require _ _) fun _ =>
    .bind (.condition h _ _) fun _ => .bind (.requireMark _ _) fun _ => .pure _

theorem switchStatement (h : r.Assembled Part) : Assembled Part (switchStatement r) :=
  .bind .takeFront fun _ => .bind (.condition h _ _) fun _ =>
    .bind (.singleStatement h) fun _ => .pure _

theorem caseLabel (h : r.Assembled Part) : Assembled Part (caseLabel r) :=
  .bind .takeFront fun _ => .bind h.expression fun _ => .bind (.requireMark _ _) fun _ => .pure _

theorem defaultLabel : Assembled Part defaultLabel :=
  .bind .takeFront fun _ => .bind (.requireMark _ _) fun _ => .pure _

theorem label : Assembled Part label :=
  .bind .takeFront fun _ => .bind (.requireMark _ _) fun _ => .pure _

theorem jump (kind : Node.Kind) (word : String) : Assembled Part (jump kind word) :=
  .bind .takeFront fun _ => .bind (.requireMark _ _) fun _ => .pure _

theorem returnStatement (h : r.Assembled Part) : Assembled Part (returnStatement r) :=
  .bind .takeFront fun _ => .bind .frontKind fun _ => .ite
    (.bind (.requireMark _ _) fun _ => .pure _)
    (.bind h.expression fun _ => .bind (.requireMark _ _) fun _ => .pure _)

theorem gotoStatement : Assembled Part gotoStatement :=
  .bind .takeFront fun _ => .bind (.require _ _) fun _ =>
    .bind (.requireMark _ _) fun _ => .pure _

theorem expressionStatement (h : r.Assembled Part) : Assembled Part (expressionStatement r) :=
  .bind .here fun _ => .bind h.expression fun _ => .bind (.requireMark _ _) fun _ => .pure _

theorem one {p : Parse Node} (h : Assembled Part p) : Assembled Part (one p) :=
  .bind h fun _ => .pure _

theorem openStatement (h : r.Assembled Part) (kind : Token.Kind) :
    Assembled Part (openStatement r kind) :=
  .bind (.bind .frontKind fun _ => .bind .secondKind fun _ => .pure _) fun _ =>
    .ite (.one .label) <| .ite (.declaration h) <| .ite (.one (.expressionStatement h)) <|
    .ite (.stop _) (.bind .takeFront fun _ => .pure _)

theorem statementOf (h : r.Assembled Part) (kind : Token.Kind) :
    Assembled Part (statementOf r kind) := by
  unfold Grammar.statementOf
  split
  · exact .one (.ifStatement h)
  · exact .one (.forStatement h)
  · exact .one (.whileStatement h)
  · exact .one (.doWhileStatement h)
  · exact .one (.switchStatement h)
  · exact .one (.caseLabel h)
  · exact .one .defaultLabel
  · exact .one (.returnStatement h)
  · exact .one (.jump _ _)
  · exact .one (.jump _ _)
  · exact .one .gotoStatement
  · exact .one (.block h)
  · exact .one .inclusion
  · exact .one (.macroDefinition h)
  · exact .one .otherDirective
  · exact .openStatement h _

theorem statement (h : r.Assembled Part) : Assembled Part (statement r) :=
  .oneDeeper <| .bind .frontKind fun _ => .statementOf h _

/-! ## Items -/

theorem item (h : r.Assembled Part) : Assembled Part (item r) :=
  .bind .frontKind fun _ => .ite (.one .inclusion) <| .ite (.one (.macroDefinition h)) <|
    .ite (.one .otherDirective) <| .ite (.declaration h) (.bind .takeFront fun _ => .pure _)

end Assembled

/-- The rules of the grammar are put together from single steps, struct bodies and steps deeper, at
any number of levels. -/
theorem Rules.level_assembled {Part : (α : Type) → Parse α → Prop} (hdeeper : Part _ goDeeper)
    (hbody : ∀ r : Rules, r.Assembled Part → ∀ tag, Part _ (structBody r tag)) (levels : Nat) :
    (Rules.level levels).FullyAssembled Part := by
  induction levels with
  | zero => exact ⟨⟨.stop _, .stop _, .stop _, .stop _⟩, .stop _, .stop _⟩
  | succ levels ih =>
      have h := ih.toAssembled
      exact ⟨⟨.expression hdeeper ih, .initializer h, .structSpecifier (hbody _ h), .statement h⟩,
        .conditional hdeeper ih, .unary hdeeper ih⟩

end CSurvey.Grammar
