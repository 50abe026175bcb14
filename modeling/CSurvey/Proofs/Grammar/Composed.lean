import CSurvey.Grammar.Program

/-! # What the grammar is composed of

Every rule of the grammar is put together from a few steps on the state. A property of readers
that these steps have, and that putting them together keeps, so holds of every rule. -/

namespace CSurvey.Grammar

/-- The readers that are put together from single steps. Only with `collects` may comments set
aside be handed out on the way, and only with `lines` may directive lines be read. -/
inductive Composed (collects lines : Bool) : {α : Type} → Parse α → Prop where
  | pure {α : Type} (a : α) : Composed collects lines (pure a)
  | bind {α β : Type} {p : Parse α} {f : α → Parse β} :
      Composed collects lines p → (∀ a, Composed collects lines (f a)) →
      Composed collects lines (p >>= f)
  /-- The next two tokens that count are looked at. -/
  | look {α : Type} (f : Token → Token → α) :
      Composed collects lines fun s => .ok (f s.front s.second) s
  | stop {α : Type} (f : Token → Failure) :
      Composed collects lines (α := α) fun s => .error (f s.front) s
  | takeFront : Composed collects lines takeFront
  | note (w : SkippedMember) : Composed collects lines (note w)
  | goDeeper : Composed collects lines goDeeper
  | oneDeeper {α : Type} {p : Parse α} :
      Composed collects lines p → Composed collects lines (oneDeeper p)
  | onDirectiveLine {α : Type} {p : Parse α} :
      lines = true → Composed collects lines p → Composed collects lines (onDirectiveLine p)
  | loop {α : Type} {round : α → Parse (Turn α)} {value : α} :
      (∀ a, Composed collects lines (round a)) → Composed collects lines (loop round value)
  | takeComments : collects = true → Composed collects lines takeComments

namespace Composed

variable {collects lines : Bool} {r : Rules}

/-! ## Single steps -/

theorem front : Composed collects lines front := .look fun t _ => t

theorem frontKind : Composed collects lines frontKind := .look fun t _ => t.kind

theorem secondKind : Composed collects lines secondKind := .look fun _ t => t.kind

theorem here : Composed collects lines here := .look fun t _ => t.location

theorem failAt {α : Type} (location : Position) (cause : Cause) :
    Composed collects lines (failAt location cause : Parse α) := .stop fun _ => ⟨cause, location⟩

theorem fail {α : Type} (cause : Cause) : Composed collects lines (fail cause : Parse α) :=
  .stop fun t => ⟨cause, t.location⟩

theorem failFound {α : Type} (cause : Token → Cause) :
    Composed collects lines (failFound cause : Parse α) := .stop fun t => ⟨cause t, t.location⟩

theorem ite {α : Type} {c : Prop} [Decidable c] {p q : Parse α} (hp : Composed collects lines p)
    (hq : Composed collects lines q) : Composed collects lines (if c then p else q) := by
  split
  · exact hp
  · exact hq

theorem accept (kind : Token.Kind) : Composed collects lines (accept kind) :=
  .bind .frontKind fun _ => .ite (.bind .takeFront fun _ => .pure _) (.pure _)

theorem require (kind : Token.Kind) (place : Place) :
    Composed collects lines (require kind place) :=
  .bind .frontKind fun _ => .ite .takeFront (.failFound _)

theorem requireMark (mark : Token.Delimiter) (place : Place) :
    Composed collects lines (requireMark mark place) := .require _ _

theorem commaSeparated {α : Type} {p : Parse α} (hp : Composed collects lines p) :
    Composed collects lines (commaSeparated p) :=
  .bind (.loop fun _ => .bind hp fun _ => .bind (.accept _) fun _ => .ite (.pure _) (.pure _))
    fun _ => .pure _

theorem mono {collects' lines' : Bool} {α : Type} {p : Parse α}
    (hcollects : collects = true → collects' = true) (hlines : lines = true → lines' = true)
    (h : Composed collects lines p) : Composed collects' lines' p := by
  induction h with
  | pure a =>
      exact .pure a
  | bind _ _ ihp ihf =>
      exact .bind ihp ihf
  | look f =>
      exact .look f
  | stop f =>
      exact .stop f
  | takeFront =>
      exact .takeFront
  | note w =>
      exact .note w
  | goDeeper =>
      exact .goDeeper
  | oneDeeper _ ih =>
      exact .oneDeeper ih
  | onDirectiveLine h _ ih =>
      exact .onDirectiveLine (hlines h) ih
  | loop _ ih =>
      exact .loop ih
  | takeComments h =>
      exact .takeComments (hcollects h)

/-- What collects no comments may stand where comments are collected and directive lines are
read. -/
theorem relax {α : Type} {p : Parse α} (h : Composed false lines p) : Composed collects true p :=
  h.mono (by simp) fun _ => rfl

theorem toTrue {α : Type} {p : Parse α} (h : Composed collects lines p) : Composed true true p :=
  h.mono (fun _ => rfl) fun _ => rfl

theorem lineTexts : Composed collects lines lineTexts := by
  refine .bind (.loop fun found => .bind .frontKind fun kind => ?_) fun _ => .pure _
  split
  · exact .pure _
  · exact .pure _
  · exact .bind .takeFront fun _ => .pure _

end Composed

/-- A reader that begins with another one and goes on with what is put together from single
steps. -/
def Opens (collects lines : Bool) {α β : Type} (q : Parse α) (p : Parse β) : Prop :=
  ∃ f, p = q >>= f ∧ ∀ a, Composed collects lines (f a)

theorem Opens.composed {collects lines : Bool} {α β : Type} {q : Parse α} {p : Parse β}
    (h : Opens collects lines q p) (hq : Composed collects lines q) :
        Composed collects lines p := by
  obtain ⟨f, rfl, hf⟩ := h
  exact .bind hq hf

theorem Opens.toTrue {collects lines : Bool} {α β : Type} {q : Parse α} {p : Parse β}
    (h : Opens collects lines q p) : Opens true true q p := by
  obtain ⟨f, hp, hf⟩ := h
  exact ⟨f, hp, fun a => (hf a).toTrue⟩

/-- Rules that are put together from single steps; only statements collect comments. -/
structure Rules.Composed (r : Rules) : Prop where
  expression : Grammar.Composed false false r.expression
  conditional : Grammar.Composed false false r.conditional
  unary : Grammar.Composed false false r.unary
  initializer : Grammar.Composed false false r.initializer
  structSpecifier : Grammar.Composed false false r.structSpecifier
  statement : Grammar.Composed true true r.statement

namespace Composed

variable {r : Rules}

/-! ## Types and declarators -/

theorem typeModifiers {collects lines : Bool} : Composed collects lines typeModifiers :=
  .bind (.loop fun _ => .bind .frontKind fun _ =>
    .ite (.bind .takeFront fun _ => .pure _) (.pure _)) fun _ => .pure _

theorem typeSpecifier (h : r.Composed) : Composed false false (typeSpecifier r) :=
  .bind .typeModifiers fun _ => .bind .frontKind fun _ =>
    .ite (.bind .takeFront fun _ => .pure _) <|
    .ite (.bind h.structSpecifier fun _ => .pure _) <|
    .ite (.failFound _) (.pure _)

theorem pointerStars {collects lines : Bool} (type : String) :
    Composed collects lines (pointerStars type) :=
  .loop fun _ => .bind (.accept _) fun _ => .ite (.pure _) (.pure _)

theorem typeName (h : r.Composed) : Composed false false (typeName r) :=
  .bind (.typeSpecifier h) fun _ => .pointerStars _

theorem skipQualifiers {collects lines : Bool} : Composed collects lines skipQualifiers := by
  refine .loop fun _ => .bind .frontKind fun kind => ?_
  split
  · exact .bind .takeFront fun _ => .pure _
  · exact .bind .takeFront fun _ => .pure _
  · exact .pure _

theorem pointers {collects lines : Bool} : Composed collects lines pointers :=
  .loop fun _ => .bind (.accept _) fun _ =>
    .ite (.bind .skipQualifiers fun _ => .pure _) (.pure _)

theorem opens_arraySize (h : r.Composed) : Opens false false Grammar.takeFront (arraySize r) :=
  ⟨_, rfl, fun _ => .bind (.accept _) fun _ => .ite (.pure _) <|
    .bind h.expression fun _ => .bind (.requireMark _ _) fun _ => .pure _⟩

theorem arraySize (h : r.Composed) : Composed false false (arraySize r) :=
  (opens_arraySize h).composed .takeFront

theorem arraySizes (h : r.Composed) : Composed false false (arraySizes r) :=
  .bind (.loop fun _ => .bind .frontKind fun _ =>
    .ite (.bind (.arraySize h) fun _ => .pure _) (.pure _)) fun _ => .pure _

theorem parameterSizes (h : r.Composed) (type : String) :
    Composed false false (parameterSizes r type) := by
  refine .loop fun type => .bind (.accept _) fun _ => .ite ?_ (.pure _)
  refine .bind .frontKind fun _ => .ite ?_ ?_
  · exact .bind (.pure _) fun _ => .bind (.requireMark _ _) fun _ => .pure _
  · exact .bind h.expression fun _ => .bind (.pure _) fun _ =>
      .bind (.requireMark _ _) fun _ => .pure _

theorem parameterName {collects lines : Bool} : Composed collects lines parameterName :=
  .bind .frontKind fun _ => .ite (.bind .takeFront fun _ => .pure _) (.pure _)

theorem parameter (h : r.Composed) : Composed false false (parameter r) :=
  .bind .here fun _ => .bind .frontKind fun _ => .ite
    (.bind (.typeName h) fun _ => .bind .parameterName fun _ =>
      .bind (.parameterSizes h _) fun _ => .pure _)
    (.failFound _)

theorem ellipsis {collects lines : Bool} : Composed collects lines ellipsis :=
  .bind .here fun _ => .bind (.requireMark _ _) fun _ => .bind (.requireMark _ _) fun _ =>
    .bind (.requireMark _ _) fun _ => .pure _

theorem parameters (h : r.Composed) : Composed false false (parameters r) := by
  refine .bind (.loop fun _ => .bind .frontKind fun _ => .ite ?_ ?_) fun _ => .pure _
  · exact .bind .ellipsis fun _ => .pure _
  · exact .bind (.parameter h) fun _ => .bind (.accept _) fun _ => .ite (.pure _) (.pure _)

theorem parameterList (h : r.Composed) : Composed false false (parameterList r) :=
  .bind .frontKind fun _ => .bind .secondKind fun _ => .ite (.pure _) <|
    .ite (.bind .takeFront fun _ => .pure _) (.parameters h)

theorem declarator (h : r.Composed) : Composed false false (declarator r) := by
  refine .bind .pointers fun _ => .bind .frontKind fun _ => .ite ?_ (.failFound _)
  refine .bind .takeFront fun _ => .bind (.accept _) fun _ => .ite ?_ ?_
  · exact .bind (.parameterList h) fun _ => .bind (.requireMark _ _) fun _ => .pure _
  · exact .bind (.arraySizes h) fun _ => .pure _

theorem structMembers (h : r.Composed) : Composed false false (structMembers r) :=
  .bind .here fun _ => .bind (.typeSpecifier h) fun _ =>
    .bind (.commaSeparated (.declarator h)) fun _ => .bind (.requireMark _ _) fun _ => .pure _

theorem reportPassed {collects lines : Bool} (tag : String) (passed : List Token) :
    Composed collects lines (reportPassed tag passed) := by
  unfold Grammar.reportPassed
  split
  · exact .pure _
  · exact .note _

theorem passBraces {collects lines : Bool} (passed : List Token) :
    Composed collects lines (passBraces passed) := by
  refine .bind (.loop fun (depth, passed) => .bind .takeFront fun token => ?_) fun _ => .pure _
  split
  · exact .pure _
  · exact .pure _
  · exact .ite (.pure _) (.pure _)
  · exact .ite (.pure _) (.pure _)

theorem structBody (h : r.Composed) (tag : String) : Composed false false (structBody r tag) := by
  refine .bind (.loop fun body => .bind .frontKind fun kind => ?_)
    fun _ => .bind (.reportPassed _ _) fun _ => .pure _
  refine .ite (.pure _) <| .ite (.fail _) <| .ite ?_ <| .ite ?_ ?_
  · exact .bind (.reportPassed _ _) fun _ => .bind (.structMembers h) fun _ => .pure _
  · exact .bind (.passBraces _) fun _ => .pure _
  · exact .bind .takeFront fun _ => .pure _

theorem structSpecifier (h : r.Composed) : Composed false false (structSpecifier r) := by
  refine .bind .takeFront fun _ => .bind .frontKind fun _ => .ite ?_ (.failFound _)
  refine .bind .takeFront fun _ => .bind (.accept _) fun _ => .ite ?_ (.pure _)
  exact .bind (.structBody h _) fun _ => .bind (.requireMark _ _) fun _ => .pure _

/-! ## Expressions -/

theorem moreStrings {collects lines : Bool} (text : String) :
    Composed collects lines (moreStrings text) :=
  .loop fun _ => .bind .frontKind fun _ => .ite (.bind .takeFront fun _ => .pure _) (.pure _)

theorem primary (h : r.Composed) : Composed false false (primary r) := by
  refine .bind .front fun token => ?_
  split
  · refine .bind .takeFront fun _ => ?_
    split
    · exact .pure _
    · exact .failAt _ _
  · exact .bind .takeFront fun _ => .bind (.moreStrings _) fun _ => .pure _
  · exact .bind .takeFront fun _ => .pure _
  · exact .bind .takeFront fun _ => .pure _
  · exact .bind .takeFront fun _ => .bind h.expression fun _ =>
      .bind (.requireMark _ _) fun _ => .pure _
  · exact .failFound _

theorem arguments (h : r.Composed) : Composed false false (arguments r) :=
  .bind .frontKind fun _ => .ite (.pure _) (.commaSeparated h.expression)

theorem opens_memberOf {collects lines : Bool} (kind : Node.Kind) (operand : Node) :
    Opens collects lines Grammar.takeFront (memberOf kind operand) :=
  ⟨_, rfl, fun _ => .bind (.require _ _) fun _ => .pure _⟩

theorem memberOf {collects lines : Bool} (kind : Node.Kind) (operand : Node) :
    Composed collects lines (memberOf kind operand) :=
  (opens_memberOf kind operand).composed .takeFront

theorem continued (h : r.Composed) (operand : Node) :
    Composed false false (continued r operand) := by
  refine .bind .frontKind fun kind => ?_
  split
  · exact .bind .takeFront fun _ => .bind h.expression fun _ =>
      .bind (.requireMark _ _) fun _ => .pure _
  · exact .bind .takeFront fun _ => .bind (.arguments h) fun _ =>
      .bind (.requireMark _ _) fun _ => .pure _
  · exact .memberOf _ _
  · exact .memberOf _ _
  · exact .bind .takeFront fun _ => .pure _

theorem opens_operand (h : r.Composed) : Opens false false (Grammar.primary r) (operand r) :=
  ⟨_, rfl, fun _ => .loop fun _ => .bind .frontKind fun _ =>
    .ite (.bind .goDeeper fun _ => .bind (.continued h _) fun _ => .pure _) (.pure _)⟩

theorem operand (h : r.Composed) : Composed false false (operand r) :=
  (opens_operand h).composed (.primary h)

theorem typeInParens {collects lines : Bool} : Composed collects lines typeInParens :=
  .bind .frontKind fun _ => .bind .secondKind fun _ => .pure _

theorem opens_sizeOf (h : r.Composed) : Opens false false Grammar.takeFront (sizeOf r) := by
  refine ⟨_, rfl, fun _ => .bind .typeInParens fun _ => .ite ?_ ?_⟩
  · exact .bind .takeFront fun _ => .bind (.typeName h) fun _ =>
      .bind (.requireMark _ _) fun _ => .pure _
  · exact .bind (.oneDeeper h.unary) fun _ => .pure _

theorem sizeOf (h : r.Composed) : Composed false false (sizeOf r) :=
  (opens_sizeOf h).composed .takeFront

theorem opens_cast (h : r.Composed) : Opens false false Grammar.takeFront (cast r) :=
  ⟨_, rfl, fun _ => .bind (.typeName h) fun _ => .bind (.requireMark _ _) fun _ =>
    .bind (.oneDeeper h.unary) fun _ => .pure _⟩

theorem cast (h : r.Composed) : Composed false false (cast r) :=
  (opens_cast h).composed .takeFront

theorem unary (h : r.Composed) : Composed false false (unary r) := by
  refine .bind .frontKind fun kind => ?_
  split
  · refine .ite ?_ <| .ite ?_ (.operand h)
    · exact .bind .takeFront fun _ => .bind (.oneDeeper h.unary) fun _ => .pure _
    · exact .bind .takeFront fun _ => .bind (.operand h) fun _ => .pure _
  · exact .sizeOf h
  · exact .bind .typeInParens fun _ => .ite (.cast h) (.operand h)

theorem opens_chain {collects lines : Bool} (level : Nat) {operand : Parse Node}
    (h : Composed collects lines operand) : Opens collects lines operand (chain level operand) :=
  ⟨_, rfl, fun _ => .loop fun _ => .bind .frontKind fun _ =>
    .ite (.bind .goDeeper fun _ => .bind .takeFront fun _ => .bind h fun _ => .pure _) (.pure _)⟩

theorem chain {collects lines : Bool} (level : Nat) {operand : Parse Node}
    (h : Composed collects lines operand) : Composed collects lines (chain level operand) :=
  (opens_chain level h).composed h

theorem binary (h : r.Composed) (level : Nat) : Composed false false (binary r level) := by
  induction level with
  | zero => exact .unary h
  | succ level ih => exact .chain _ ih

theorem opens_conditional (h : r.Composed) :
    Opens false false (Grammar.binary r 10) (conditional r) :=
  ⟨_, rfl, fun _ => .bind .frontKind fun _ => .ite
    (.bind .takeFront fun _ => .bind h.expression fun _ => .bind (.requireMark _ _) fun _ =>
      .bind (.oneDeeper h.conditional) fun _ => .pure _)
    (.pure _)⟩

theorem conditional (h : r.Composed) : Composed false false (conditional r) :=
  (opens_conditional h).composed (.binary h 10)

theorem expression (h : r.Composed) : Composed false false (expression r) :=
  .oneDeeper <| .bind (.conditional h) fun _ => .bind .frontKind fun _ => .ite
    (.bind .takeFront fun _ => .bind h.expression fun _ => .pure _) (.pure _)

theorem initializer (h : r.Composed) : Composed false false (initializer r) := by
  refine .bind .frontKind fun _ => .ite ?_ h.expression
  refine .bind .takeFront fun _ => .bind (.loop fun _ => ?_) fun _ =>
    .bind (.requireMark _ _) fun _ => .pure _
  exact .bind .frontKind fun _ => .ite (.pure _) <|
    .bind (.oneDeeper h.initializer) fun _ => .bind (.accept _) fun _ => .ite (.pure _) (.pure _)

/-! ## Directive lines -/

theorem headerName {collects lines : Bool} : Composed collects lines headerName := by
  refine .bind (.loop fun name => .bind .frontKind fun kind => ?_) fun name =>
    .ite (.fail _) (.bind .takeFront fun _ => .pure _)
  split
  · exact .pure _
  · exact .failFound _
  · exact .failFound _
  · exact .bind .takeFront fun _ => .pure _

theorem inclusionTarget {collects lines : Bool} : Composed collects lines inclusionTarget := by
  refine .bind .frontKind fun kind => ?_
  split
  · exact .bind .takeFront fun _ => .pure _
  · exact .bind .takeFront fun _ => .headerName
  · exact .failFound _

theorem opens_inclusion {collects : Bool} : Opens collects true Grammar.takeFront inclusion :=
  ⟨_, rfl, fun _ => .bind
    (.onDirectiveLine rfl <| .bind .inclusionTarget fun _ => .bind .lineTexts fun _ => .pure _)
    fun _ => .pure _⟩

theorem inclusion {collects : Bool} : Composed collects true inclusion :=
  opens_inclusion.composed .takeFront

theorem macroValue (h : r.Composed) : Composed false false (macroValue r) :=
  .bind .frontKind fun _ => .ite (.bind h.expression fun _ => .pure _) <|
    .ite (.pure _) (.bind .here fun _ => .bind .lineTexts fun _ => .pure _)

theorem opens_macroDefinition (h : r.Composed) :
    Opens false true Grammar.takeFront (macroDefinition r) :=
  ⟨_, rfl, fun _ => .onDirectiveLine rfl <| .bind (.require _ _) fun _ =>
    .bind (.relax (.macroValue h)) fun _ => .bind .lineTexts fun _ => .pure _⟩

theorem macroDefinition (h : r.Composed) : Composed false true (macroDefinition r) :=
  (opens_macroDefinition h).composed .takeFront

theorem otherDirective {collects : Bool} : Composed collects true otherDirective :=
  .bind .here fun _ => .bind (.onDirectiveLine rfl .lineTexts) fun _ => .pure _

/-! ## Statements and declarations -/

theorem opens_block (h : r.Composed) :
    Opens true true (Grammar.requireMark .leftBrace .beforeBlock) (block r) := by
  refine ⟨_, rfl, fun _ => .bind (.loop fun found => ?_) fun _ =>
    .bind (.requireMark _ _) fun _ => .pure _⟩
  refine .bind (.takeComments rfl) fun _ => .bind .frontKind fun kind => ?_
  split
  · exact .pure _
  · exact .fail _
  · exact .bind h.statement fun _ => .pure _

theorem block (h : r.Composed) : Composed true true (block r) :=
  (opens_block h).composed (.requireMark _ _)

theorem declared (h : r.Composed) (location : Position) (type : String) (d : Declarator)
    (body : Option Node) : Composed false false (declared r location type d body) :=
  .ite (.pure _) <| .bind (.accept _) fun _ =>
    .ite (.bind (.initializer h) fun _ => .pure _) (.pure _)

theorem declaredNames (h : r.Composed) (location : Position) (type : TypeSpecifier)
    (body : Option Node) : Composed true true (declaredNames r location type body) := by
  refine .loop fun names => .bind (relax (.declarator h)) fun d => ?_
  refine .bind .frontKind fun _ => .ite ?_ ?_
  · exact .bind (.block h) fun _ => .pure _
  · exact .bind (relax (.declared h _ _ _ _)) fun _ => .bind (.accept _) fun _ =>
      .ite (.pure _) (.pure _)

theorem declaration (h : r.Composed) : Composed true true (declaration r) :=
  .bind .here fun _ => .bind (relax (.typeSpecifier h)) fun _ => .bind (.accept _) fun _ =>
    .ite (.pure _) <| .bind (.declaredNames h _ _ _) fun _ =>
      .ite (.pure _) (.bind (.requireMark _ _) fun _ => .pure _)

theorem singleStatement (h : r.Composed) : Composed true true (singleStatement r) :=
  .bind .here fun _ => .bind h.statement fun _ => .pure _

theorem condition (h : r.Composed) (word : String) (place : Place) :
    Composed false false (condition r word place) :=
  .bind (.requireMark _ _) fun _ => .bind h.expression fun _ =>
    .bind (.requireMark _ _) fun _ => .pure _

theorem opens_ifStatement (h : r.Composed) : Opens true true Grammar.takeFront (ifStatement r) :=
  ⟨_, rfl, fun _ => .bind (relax (.condition h _ _)) fun _ =>
    .bind (.singleStatement h) fun _ => .bind (.accept _) fun _ =>
      .ite (.bind (.singleStatement h) fun _ => .pure _) (.pure _)⟩

theorem ifStatement (h : r.Composed) : Composed true true (ifStatement r) :=
  (opens_ifStatement h).composed .takeFront

theorem forStart (h : r.Composed) : Composed true true (forStart r) := by
  refine .bind .here fun _ => .bind (.accept _) fun _ => .ite (.pure _) <|
    .bind .frontKind fun _ => .ite (.bind (.declaration h) fun nodes => ?_) ?_
  · split
    · exact .pure _
    · exact .pure _
  · exact .bind (relax h.expression) fun _ => .bind (.requireMark _ _) fun _ => .pure _

theorem optionalBefore (h : r.Composed) (mark : Token.Delimiter) :
    Composed false false (optionalBefore r mark) :=
  .bind .frontKind fun _ => .ite (.bind .here fun _ => .pure _) h.expression

theorem opens_forStatement (h : r.Composed) : Opens true true Grammar.takeFront (forStatement r) :=
  ⟨_, rfl, fun _ => .bind (.requireMark _ _) fun _ => .bind (.forStart h) fun _ =>
    .bind (relax (.optionalBefore h _)) fun _ => .bind (.requireMark _ _) fun _ =>
    .bind (relax (.optionalBefore h _)) fun _ => .bind (.requireMark _ _) fun _ =>
    .bind (.singleStatement h) fun _ => .pure _⟩

theorem forStatement (h : r.Composed) : Composed true true (forStatement r) :=
  (opens_forStatement h).composed .takeFront

theorem opens_whileStatement (h : r.Composed) :
    Opens true true Grammar.takeFront (whileStatement r) :=
  ⟨_, rfl, fun _ => .bind (relax (.condition h _ _)) fun _ =>
    .bind (.singleStatement h) fun _ => .pure _⟩

theorem whileStatement (h : r.Composed) : Composed true true (whileStatement r) :=
  (opens_whileStatement h).composed .takeFront

theorem opens_doWhileStatement (h : r.Composed) :
    Opens true true Grammar.takeFront (doWhileStatement r) :=
  ⟨_, rfl, fun _ => .bind (.singleStatement h) fun _ => .bind (.require _ _) fun _ =>
    .bind (relax (.condition h _ _)) fun _ => .bind (.requireMark _ _) fun _ => .pure _⟩

theorem doWhileStatement (h : r.Composed) : Composed true true (doWhileStatement r) :=
  (opens_doWhileStatement h).composed .takeFront

theorem opens_switchStatement (h : r.Composed) :
    Opens true true Grammar.takeFront (switchStatement r) :=
  ⟨_, rfl, fun _ => .bind (relax (.condition h _ _)) fun _ =>
    .bind (.singleStatement h) fun _ => .pure _⟩

theorem switchStatement (h : r.Composed) : Composed true true (switchStatement r) :=
  (opens_switchStatement h).composed .takeFront

theorem opens_caseLabel (h : r.Composed) : Opens false false Grammar.takeFront (caseLabel r) :=
  ⟨_, rfl, fun _ => .bind h.expression fun _ => .bind (.requireMark _ _) fun _ => .pure _⟩

theorem caseLabel (h : r.Composed) : Composed false false (caseLabel r) :=
  (opens_caseLabel h).composed .takeFront

theorem opens_defaultLabel {collects lines : Bool} :
    Opens collects lines Grammar.takeFront defaultLabel :=
  ⟨_, rfl, fun _ => .bind (.requireMark _ _) fun _ => .pure _⟩

theorem defaultLabel {collects lines : Bool} : Composed collects lines defaultLabel :=
  opens_defaultLabel.composed .takeFront

theorem opens_label {collects lines : Bool} : Opens collects lines Grammar.takeFront label :=
  ⟨_, rfl, fun _ => .bind (.requireMark _ _) fun _ => .pure _⟩

theorem label {collects lines : Bool} : Composed collects lines label :=
  opens_label.composed .takeFront

theorem opens_returnStatement (h : r.Composed) :
    Opens false false Grammar.takeFront (returnStatement r) :=
  ⟨_, rfl, fun _ => .bind .frontKind fun _ => .ite
    (.bind (.requireMark _ _) fun _ => .pure _)
    (.bind h.expression fun _ => .bind (.requireMark _ _) fun _ => .pure _)⟩

theorem returnStatement (h : r.Composed) : Composed false false (returnStatement r) :=
  (opens_returnStatement h).composed .takeFront

theorem opens_jump {collects lines : Bool} (kind : Node.Kind) (word : String) :
    Opens collects lines Grammar.takeFront (jump kind word) :=
  ⟨_, rfl, fun _ => .bind (.requireMark _ _) fun _ => .pure _⟩

theorem jump {collects lines : Bool} (kind : Node.Kind) (word : String) :
    Composed collects lines (jump kind word) :=
  (opens_jump kind word).composed .takeFront

theorem opens_gotoStatement {collects lines : Bool} :
    Opens collects lines Grammar.takeFront gotoStatement :=
  ⟨_, rfl, fun _ => .bind (.require _ _) fun _ => .bind (.requireMark _ _) fun _ => .pure _⟩

theorem gotoStatement {collects lines : Bool} : Composed collects lines gotoStatement :=
  opens_gotoStatement.composed .takeFront

theorem expressionStatement (h : r.Composed) : Composed false false (expressionStatement r) :=
  .bind .here fun _ => .bind h.expression fun _ => .bind (.requireMark _ _) fun _ => .pure _

theorem one {collects lines : Bool} {p : Parse Node} (h : Composed collects lines p) :
    Composed collects lines (one p) :=
  .bind h fun _ => .pure _

theorem labelAhead {collects lines : Bool} : Composed collects lines labelAhead :=
  .bind .frontKind fun _ => .bind .secondKind fun _ => .pure _

theorem openStatement (h : r.Composed) (kind : Token.Kind) :
    Composed true true (openStatement r kind) :=
  .bind .labelAhead fun _ => .ite (.one .label) <| .ite (.declaration h) <|
    .ite (.one (relax (.expressionStatement h))) <|
    .ite (.failFound _) (.bind .takeFront fun _ => .pure _)

theorem statementOf (h : r.Composed) (kind : Token.Kind) :
    Composed true true (statementOf r kind) := by
  unfold Grammar.statementOf
  split
  · exact .one (.ifStatement h)
  · exact .one (.forStatement h)
  · exact .one (.whileStatement h)
  · exact .one (.doWhileStatement h)
  · exact .one (.switchStatement h)
  · exact .one (relax (.caseLabel h))
  · exact .one .defaultLabel
  · exact .one (relax (.returnStatement h))
  · exact .one (.jump _ _)
  · exact .one (.jump _ _)
  · exact .one .gotoStatement
  · exact .one (.block h)
  · exact .one .inclusion
  · exact .one (relax (.macroDefinition h))
  · exact .one .otherDirective
  · exact .openStatement h _

theorem statement (h : r.Composed) : Composed true true (statement r) :=
  .oneDeeper <| .bind .frontKind fun _ => .statementOf h _

/-! ## Items -/

theorem item (h : r.Composed) : Composed true true (item r) :=
  .bind .frontKind fun _ => .ite (.one .inclusion) <| .ite (.one (relax (.macroDefinition h))) <|
    .ite (.one .otherDirective) <| .ite (.declaration h) (.bind .takeFront fun _ => .pure _)

end Composed

/-- The rules of the grammar are put together from single steps, at any number of levels. -/
theorem Rules.level_composed (levels : Nat) : (Rules.level levels).Composed := by
  induction levels with
  | zero =>
      exact ⟨.fail _, .fail _, .fail _, .fail _, .fail _, .fail _⟩
  | succ levels ih =>
      exact ⟨.expression ih, .conditional ih, .unary ih, .initializer ih, .structSpecifier ih,
        .statement ih⟩

end CSurvey.Grammar
