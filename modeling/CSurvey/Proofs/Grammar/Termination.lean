import CSurvey.Proofs.Grammar.Joining
import CSurvey.Token.Splitting

/-! # Every reading comes to its end

The rounds of a file and of every loop in it end by themselves, never for want of rounds or of
nesting: no production goes back among the tokens, and an item, a declaration, an expression and a
round behind a failed item each take a token. So does a statement, except where a newline stands
before the marker of a directive line that is kept as it stands. -/

namespace CSurvey.Grammar

/-! ## Productions -/

/-- The readers that are the productions of the grammar. -/
inductive Production (r : Rules) : {α : Type} → Parse α → Prop where
  | typeModifiers : Production r typeModifiers
  | typeSpecifier : Production r (typeSpecifier r)
  | pointerStars (type : String) : Production r (pointerStars type)
  | typeName : Production r (typeName r)
  | skipQualifiers : Production r skipQualifiers
  | pointers : Production r pointers
  | arraySize : Production r (arraySize r)
  | arraySizes : Production r (arraySizes r)
  | parameterSizes (type : String) : Production r (parameterSizes r type)
  | parameterName : Production r parameterName
  | parameter : Production r (parameter r)
  | ellipsis : Production r ellipsis
  | parameters : Production r (parameters r)
  | parameterList : Production r (parameterList r)
  | declarator : Production r (declarator r)
  | structMembers : Production r (structMembers r)
  | passBraces (passed : List Token) : Production r (passBraces passed)
  | structBody (tag : String) : Production r (structBody r tag)
  | structSpecifier : Production r (structSpecifier r)
  | moreStrings (text : String) : Production r (moreStrings text)
  | primary : Production r (primary r)
  | arguments : Production r (arguments r)
  | memberOf (kind : Node.Kind) (operand : Node) : Production r (memberOf kind operand)
  | continued (operand : Node) : Production r (continued r operand)
  | operand : Production r (operand r)
  | sizeOf : Production r (sizeOf r)
  | cast : Production r (cast r)
  | unary : Production r (unary r)
  | binary (level : Nat) : Production r (binary r level)
  | conditional : Production r (conditional r)
  | expression : Production r (expression r)
  | initializer : Production r (initializer r)
  | block : Production r (block r)
  | declared (location : Position) (type : String) (d : Declarator) (body : Option Node) :
      Production r (declared r location type d body)
  | declaredNames (location : Position) (type : TypeSpecifier) (body : Option Node) :
      Production r (declaredNames r location type body)
  | declaration : Production r (declaration r)
  | lineTexts : Production r lineTexts
  | headerName : Production r headerName
  | inclusionTarget : Production r inclusionTarget
  | inclusion : Production r inclusion
  | macroValue : Production r (macroValue r)
  | macroDefinition : Production r (macroDefinition r)
  | otherDirective : Production r otherDirective
  | singleStatement : Production r (singleStatement r)
  | condition (word : String) (place : Place) : Production r (condition r word place)
  | ifStatement : Production r (ifStatement r)
  | forStart : Production r (forStart r)
  | optionalBefore (mark : Token.Delimiter) : Production r (optionalBefore r mark)
  | forStatement : Production r (forStatement r)
  | whileStatement : Production r (whileStatement r)
  | doWhileStatement : Production r (doWhileStatement r)
  | switchStatement : Production r (switchStatement r)
  | caseLabel : Production r (caseLabel r)
  | defaultLabel : Production r defaultLabel
  | label : Production r label
  | returnStatement : Production r (returnStatement r)
  | jump (kind : Node.Kind) (word : String) : Production r (jump kind word)
  | gotoStatement : Production r gotoStatement
  | expressionStatement : Production r (expressionStatement r)
  | openStatement (kind : Token.Kind) : Production r (openStatement r kind)
  | statementOf (kind : Token.Kind) : Production r (statementOf r kind)
  | statement : Production r (statement r)
  | item : Production r (item r)

variable {r : Rules}

theorem Production.composed (hr : r.Composed) {α : Type} {p : Parse α} (hp : Production r p) :
    Composed true true p := by
  cases hp with
  | typeModifiers => exact .typeModifiers
  | typeSpecifier => exact .relax (.typeSpecifier hr)
  | pointerStars type => exact .pointerStars type
  | typeName => exact .relax (.typeName hr)
  | skipQualifiers => exact .skipQualifiers
  | pointers => exact .pointers
  | arraySize => exact .relax (.arraySize hr)
  | arraySizes => exact .relax (.arraySizes hr)
  | parameterSizes type => exact .relax (.parameterSizes hr type)
  | parameterName => exact .parameterName
  | parameter => exact .relax (.parameter hr)
  | ellipsis => exact .ellipsis
  | parameters => exact .relax (.parameters hr)
  | parameterList => exact .relax (.parameterList hr)
  | declarator => exact .relax (.declarator hr)
  | structMembers => exact .relax (.structMembers hr)
  | passBraces passed => exact .passBraces passed
  | structBody tag => exact .relax (.structBody hr tag)
  | structSpecifier => exact .relax (.structSpecifier hr)
  | moreStrings text => exact .moreStrings text
  | primary => exact .relax (.primary hr)
  | arguments => exact .relax (.arguments hr)
  | memberOf kind operand => exact .memberOf kind operand
  | continued operand => exact .relax (.continued hr operand)
  | operand => exact .relax (.operand hr)
  | sizeOf => exact .relax (.sizeOf hr)
  | cast => exact .relax (.cast hr)
  | unary => exact .relax (.unary hr)
  | binary level => exact .relax (.binary hr level)
  | conditional => exact .relax (.conditional hr)
  | expression => exact .relax (.expression hr)
  | initializer => exact .relax (.initializer hr)
  | block => exact .block hr
  | declared location type d body => exact .relax (.declared hr location type d body)
  | declaredNames location type body => exact .declaredNames hr location type body
  | declaration => exact .declaration hr
  | lineTexts => exact .lineTexts
  | headerName => exact .headerName
  | inclusionTarget => exact .inclusionTarget
  | inclusion => exact .inclusion
  | macroValue => exact .relax (.macroValue hr)
  | macroDefinition => exact .relax (.macroDefinition hr)
  | otherDirective => exact .otherDirective
  | singleStatement => exact .singleStatement hr
  | condition word place => exact .relax (.condition hr word place)
  | ifStatement => exact .ifStatement hr
  | forStart => exact .forStart hr
  | optionalBefore mark => exact .relax (.optionalBefore hr mark)
  | forStatement => exact .forStatement hr
  | whileStatement => exact .whileStatement hr
  | doWhileStatement => exact .doWhileStatement hr
  | switchStatement => exact .switchStatement hr
  | caseLabel => exact .relax (.caseLabel hr)
  | defaultLabel => exact .defaultLabel
  | label => exact .label
  | returnStatement => exact .relax (.returnStatement hr)
  | jump kind word => exact .jump kind word
  | gotoStatement => exact .gotoStatement
  | expressionStatement => exact .relax (.expressionStatement hr)
  | openStatement kind => exact .openStatement hr kind
  | statementOf kind => exact .statementOf hr kind
  | statement => exact .statement hr
  | item => exact .item hr

/-! ## Statements that take nothing -/

/-- Before a newline that counts, a line has no words left. -/
theorem lineTexts_newline {s : State} (h : s.front.kind = .newline) : lineTexts s = .ok [] s := by
  refine bind_eq_ok.mpr ⟨[], s, loop_done ?_, rfl⟩
  refine bind_eq_ok.mpr ⟨.newline, s, by rw [frontKind, h], rfl⟩

theorem statementOf_isOtherDirective {kind : Token.Kind} (h : kind.isOtherDirective = true) :
    statementOf r kind = one otherDirective := by
  cases kind with
  | directive marker => cases marker <;> first | rfl | contradiction
  | _ => contradiction

/-- A statement that misses its line comes to an empty directive and takes nothing. -/
theorem statement_of_missesLine {s : State} (h : s.MissesLine) (hdepth : s.depth < s.limit) :
    statement r s = .ok [.texted .directive "" s.front.location []] s := by
  let inner : State := { s with depth := s.depth + 1 }
  have hwords : onDirectiveLine lineTexts inner = .ok [] inner :=
    onDirectiveLine_eq_ok.mpr ⟨_, lineTexts_newline h.1, rfl⟩
  have hline : otherDirective inner =
      .ok (.texted .directive "" s.front.location []) inner :=
    bind_eq_ok.mpr ⟨_, inner, rfl, bind_eq_ok.mpr ⟨[], inner, hwords, rfl⟩⟩
  refine oneDeeper_eq_ok.mpr ⟨hdepth, inner, ?_, rfl⟩
  refine bind_eq_ok.mpr ⟨s.front.kind, inner, rfl, ?_⟩
  rw [statementOf_isOtherDirective h.2]
  exact bind_eq_ok.mpr ⟨_, inner, hline, rfl⟩

/-- A statement takes a token exactly if it is no marker that is missed. -/
theorem length_statement_lt_iff (hr : r.Composed) {s t : State} {nodes : List Node}
    (h : statement r s = .ok nodes t) : t.rest.length < s.rest.length ↔ ¬s.MissesLine := by
  refine ⟨fun hlt hmisses => ?_, fun hmisses => Advances.statement hr hmisses h trivial⟩
  have hdepth := (oneDeeper_eq_ok.mp h).1
  rw [statement_of_missesLine hmisses hdepth] at h
  obtain ⟨-, rfl⟩ := EStateM.Result.ok.inj h
  exact Nat.lt_irrefl _ hlt

/-! ## Whole files -/

/-- A reading has come to the end of the tokens, or to a failure where it does not recover. -/
def Ending.AtEnd (stop : Position) (recover : Bool) : Ending → Prop
  | .complete p => p.state.rest = [] ∧ p.state.stop = stop
  | .stopped _ _ => recover = false

theorem readOn_atEnd (hr : r.Composed) (recover : Bool) (p : Progress) :
    (readOn r recover p).AtEnd p.state.stop recover := by
  induction hn : p.state.rest.length using Nat.strong_induction_on generalizing p with
  | _ n ih =>
      subst hn
      by_cases hend : p.flush.state.rest = []
      · rw [readOn_end hend]
        exact ⟨hend, rfl⟩
      · cases hitem : item r p.flush.state with
        | ok found next =>
            have hstop : next.stop = p.state.stop := ((Composed.item hr).leads hitem).stop
            rw [readOn_ok hr hend hitem, ← hstop]
            exact ih _ (length_item_lt hr hend hitem) _ rfl
        | error failure failed =>
            have hstop : failed.stop = p.state.stop := ((Composed.item hr).leads_error hitem).stop
            cases recover with
            | true =>
                rw [readOn_recovered hr hend hitem, ← hstop]
                exact ih _ (length_resume_flush_lt failed hend) _ rfl
            | false =>
                rw [readOn_stopped hr hend hitem]
                exact rfl

/-- The steps of a reading make progress among the tokens. -/
structure Rules.Progresses (r : Rules) : Prop where
  /-- No production goes back, -/
  back : ∀ {α : Type} {p : Parse α} {s t : State} {a : α}, Production r p → p s = .ok a t →
    t.rest <:+ s.rest
  /-- even where it fails. -/
  failed_back : ∀ {α : Type} {p : Parse α} {s t : State} {e : Failure}, Production r p →
    p s = .error e t → t.rest <:+ s.rest
  expression : ∀ {s t : State} {n : Node}, Grammar.expression r s = .ok n t →
    t.rest.length < s.rest.length
  declaration : ∀ {s t : State} {nodes : List Node}, Grammar.declaration r s = .ok nodes t →
    t.rest.length < s.rest.length
  /-- A statement takes a token unless it misses its line. -/
  statement : ∀ {s t : State} {nodes : List Node}, Grammar.statement r s = .ok nodes t →
    (t.rest.length < s.rest.length ↔ ¬s.MissesLine)
  /-- An item of a file that goes on takes a token, -/
  item : ∀ {p : Progress} {found : List Node} {next : State}, p.flush.state.rest ≠ [] →
    Grammar.item r p.flush.state = .ok found next → next.rest.length < p.flush.state.rest.length
  /-- and one that fails is left behind with a token at least. -/
  recovered : ∀ {p : Progress} {failure : Failure} {failed : State}, p.flush.state.rest ≠ [] →
    Grammar.item r p.flush.state = .error failure failed →
    (failed.resume p.flush.state.rest).rest.length < p.flush.state.rest.length

theorem Rules.Composed.progresses (hr : r.Composed) : r.Progresses where
  back hp h := ((hp.composed hr).leads h).rest
  failed_back hp h := ((hp.composed hr).leads_error h).rest
  expression h := Advances.expression (P := Always) hr trivial h trivial
  declaration h := Advances.declaration (P := Always) hr trivial h trivial
  statement h := length_statement_lt_iff hr h
  item {p _ _} hgoes h := by
    have hopen : p.flush.state.Open := by
      rw [State.Open, p.settled_flush]
      exact hgoes
    exact Advances.item hr ⟨p.settled_flush, hopen⟩ h trivial
  recovered {_ _ failed} hgoes _ := failed.length_resume_lt hgoes

/-- A parse reads the tokens before the first end of input, gives up nothing for want of rounds or
of nesting, and comes to that end or, without recovery, to a failure. All its steps make
progress. -/
theorem parse_terminates (tokens : List Token) (options : ParseSettings) :
    let start := State.ofTokens tokens options.maxNesting
    let reading := readFile (.forTokens start.rest) tokens options
    start.rest = (tokens.takeWhile fun t => t.kind ≠ .endOfInput) ∧
      parse tokens options = reading.parsed ∧ ¬reading.GaveUp ∧
      reading.AtEnd start.stop options.recover ∧ ∀ levels, (Rules.level levels).Progresses :=
  ⟨State.ofTokens_rest_eq tokens _, parse_eq_parsed tokens options,
    not_gaveUp_forTokens tokens options,
    readOn_atEnd (Rules.level_composed _) _ ⟨[], [], State.ofTokens tokens options.maxNesting⟩,
    fun levels => (Rules.level_composed levels).progresses⟩

/-- Behind a condition and a newline, a statement that begins with a directive comes to an empty
directive and takes nothing, so that the directive is read a second time behind the choice. -/
theorem statement_endIf :
    let tokens : List Token := [⟨.keyword .intKw, "int", ⟨1, 1⟩⟩, ⟨.identifier, "f", ⟨1, 5⟩⟩,
      ⟨.delimiter .leftParen, "(", ⟨1, 6⟩⟩, ⟨.delimiter .rightParen, ")", ⟨1, 7⟩⟩,
      ⟨.delimiter .leftBrace, "\x7b", ⟨1, 9⟩⟩, ⟨.keyword .ifKw, "if", ⟨1, 10⟩⟩,
      ⟨.delimiter .leftParen, "(", ⟨1, 13⟩⟩, ⟨.identifier, "x", ⟨1, 14⟩⟩,
      ⟨.delimiter .rightParen, ")", ⟨1, 15⟩⟩, ⟨.newline, "\n", ⟨1, 16⟩⟩,
      ⟨.directive .endIf, "#endif", ⟨2, 1⟩⟩, ⟨.newline, "\n", ⟨2, 7⟩⟩,
      ⟨.delimiter .rightBrace, "\x7d", ⟨3, 1⟩⟩, .endOfInput ⟨3, 2⟩]
    let name : Node := .texted .functionDeclarator "f" ⟨1, 5⟩ []
    let choice : Node := .texted .ifStatement "if" ⟨1, 10⟩
      [.texted .identifier "x" ⟨1, 14⟩ [], .texted .directive "" ⟨2, 1⟩ []]
    let code : Node := .plain .block ⟨1, 9⟩ [choice, .texted .directive "#endif" ⟨2, 1⟩ []]
    let start := State.ofTokens tokens 48
    let s : State := { start with rest := start.rest.drop 9, depth := 2 }
    tokenize "int f() \x7bif (x)\n#endif\n\x7d" = .ok tokens ∧
      parse tokens {} = ⟨.plain .program .start
        [.texted .functionDefinition "int" ⟨1, 1⟩ [name, code]], [], []⟩ ∧
      statement (.forTokens start.rest) s = .ok [.texted .directive "" ⟨2, 1⟩ []] s :=
  ⟨rfl, by decide +kernel, statement_of_missesLine (by decide) (by decide)⟩

end CSurvey.Grammar
