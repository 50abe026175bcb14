import CSurvey.Proofs.Grammar.Heights

/-! # A bound on the height of whole files

Declarations and statements put a few nodes on top of the expressions in them, and a statement takes
a level. So the tree of a file is no taller than the square of the limit with a few levels added,
however long the file is, and what goes down the tree goes no deeper. -/

namespace CSurvey

namespace Grammar

variable {levels : Nat} {r : Rules}

namespace Builds

open Node (height_texted_le height_plain_le)

/-! ## Lines and blocks -/

theorem inclusion : Builds levels inclusion (·.height ≤ 1) :=
  .step .takeFront fun _ =>
    .step (.onDirectiveLine rfl (.bind .inclusionTarget fun _ => .bind .lineTexts fun _ => .pure _))
      fun _ => .pure (height_texted_le (by simp))

theorem macroValue (h : r.Builds) :
    Builds levels (macroValue r) fun value => ∀ n ∈ value, n.height ≤ tallest levels := by
  have hfour := four_le_tallest levels
  refine .step .frontKind fun _ => .ite ?_ <| .ite (.pure (by simp)) ?_
  · exact .bind (h.expression levels) fun value hvalue => .pure (by simpa using hvalue)
  · have hone : 1 ≤ tallest levels := by omega
    exact .step .here fun _ => .step .lineTexts fun _ => .pure (by simpa [height_leaf] using hone)

theorem macroDefinition (h : r.Builds) :
    Builds levels (macroDefinition r) (·.height ≤ tallest levels + 1) :=
  .step .takeFront fun _ => .onDirectiveLine <| .step (.require _ _) fun _ =>
    .bind (.macroValue h) fun _ hvalue => .step .lineTexts fun _ => .pure (height_texted_le hvalue)

theorem otherDirective : Builds levels otherDirective (·.height ≤ 1) :=
  .step .here fun _ => .step (.onDirectiveLine rfl .lineTexts) fun _ =>
    .pure (height_texted_le (by simp))

theorem block (h : r.Builds) : Builds levels (block r) (·.height ≤ tallest levels + 2) := by
  refine .step (.requireMark _ _) fun _ =>
    .bind (P := fun found => ∀ n ∈ found, n.height ≤ tallest levels + 1)
      (.loop (I := fun found => ∀ n ∈ found, n.height ≤ tallest levels + 1) ?_ (by simp))
    fun found hfound => .step (.requireMark _ _) fun _ =>
      .pure (height_plain_le (by simpa using hfound))
  intro found hfound
  refine .bind .takeComments fun comments hcomments => ?_
  have hall : ∀ n ∈ comments.reverse ++ found, n.height ≤ tallest levels + 1 := by
    refine List.forall_mem_append.mpr ⟨fun n hn => ?_, hfound⟩
    rw [hcomments n (List.mem_reverse.mp hn)]
    omega
  refine .step .frontKind fun kind => ?_
  split
  · exact .pure hall
  · exact .stop
  · refine .bind (h.statement levels) fun nodes hnodes => .pure ?_
    exact List.forall_mem_append.mpr ⟨by simpa using hnodes, hall⟩

/-! ## Declarations -/

theorem declared (h : r.Builds) (location : Position) (type : String) {d : Declarator}
    {body : Option Node} (hd : d.node.height ≤ tallest levels + 1)
    (hbody : ∀ n ∈ body, n.height ≤ tallest levels + 3) :
    Builds levels (declared r location type d body) (·.height ≤ tallest levels + 4) := by
  have hd : d.node.height ≤ tallest levels + 3 := by omega
  have hbare : ∀ n ∈ d.node :: body.toList, n.height ≤ tallest levels + 3 :=
    List.forall_mem_cons.mpr ⟨hd, by simpa using hbody⟩
  refine .ite (.pure (height_texted_le hbare)) ?_
  refine .step (.accept _) fun _ => .ite ?_ (.pure (height_texted_le hbare))
  refine .bind (.initializer h) fun value hvalue => .pure (height_texted_le ?_)
  simp only [List.forall_mem_cons] at hbare ⊢
  exact ⟨hd, by omega, hbare.2⟩

theorem declaredNames (h : r.Builds) (location : Position) (type : TypeSpecifier)
    {body : Option Node} (hbody : ∀ n ∈ body, n.height ≤ tallest levels + 3) :
    Builds levels (declaredNames r location type body) fun names =>
      ∀ n ∈ names.nodes, n.height ≤ tallest levels + 4 := by
  refine .loop (I := fun names => ∀ n ∈ names.nodes, n.height ≤ tallest levels + 4) ?_ (by simp)
  intro names hnames
  have hfirst : ∀ n ∈ if names.nodes.isEmpty then body else none,
      n.height ≤ tallest levels + 3 := by
    split
    · exact hbody
    · simp
  refine .bind (.declarator h) fun d hd => .step .frontKind fun _ => .ite ?_ ?_
  · refine .bind (.block h) fun code hcode => .pure ?_
    refine List.forall_mem_cons.mpr ⟨height_texted_le ?_, hnames⟩
    simp only [List.forall_mem_cons]
    exact ⟨by omega, by omega, by simpa using hfirst⟩
  · refine .bind (.declared h location _ hd hfirst) fun node hnode =>
      .step (.accept _) fun _ => ?_
    have hall : ∀ n ∈ node :: names.nodes, n.height ≤ tallest levels + 4 :=
      List.forall_mem_cons.mpr ⟨hnode, hnames⟩
    exact .ite (.pure hall) (.pure hall)

theorem declaration (h : r.Builds) : Builds levels (declaration r) fun nodes =>
    ∀ n ∈ nodes, n.height ≤ tallest levels + 4 := by
  refine .step .here fun location => .bind (.typeSpecifier h) fun type htype =>
    .step (.accept _) fun _ => .ite (.pure ?_) ?_
  · simpa using fun n hn => Nat.le_succ_of_le (htype n hn)
  · have hbody : ∀ n ∈ type.structNode.filter fun n => n.kind = .structDefinition,
        n.height ≤ tallest levels + 3 := fun n hn => htype n (Option.filter_eq_some_iff.mp hn).1
    refine .bind (.declaredNames h location type hbody) fun names hnames => ?_
    have hall : ∀ n ∈ names.nodes.reverse, n.height ≤ tallest levels + 4 := by simpa using hnames
    exact .ite (.pure hall) (.step (.requireMark _ _) fun _ => .pure hall)

/-! ## Statements -/

theorem height_asSingle_le {k : Nat} {location : Position} {nodes : List Node}
    (h : ∀ n ∈ nodes, n.height ≤ k) : (asSingle location nodes).height ≤ k + 1 := by
  unfold asSingle
  split
  · rw [height_absent]
    omega
  · rename_i n
    exact Nat.le_succ_of_le (h n (by simp))
  · exact height_plain_le h

theorem singleStatement (h : r.Builds) :
    Builds levels (singleStatement r) (·.height ≤ tallest levels + 2) :=
  .step .here fun _ => .bind (h.statement levels) fun _ hnodes => .pure (height_asSingle_le hnodes)

theorem condition (h : r.Builds) (word : String) (place : Place) :
    Builds levels (condition r word place) (·.height ≤ tallest levels) :=
  .step (.requireMark _ _) fun _ => .bind (h.expression levels) fun _ hvalue =>
    .step (.requireMark _ _) fun _ => .pure hvalue

theorem optionalBefore (h : r.Builds) (mark : Token.Delimiter) :
    Builds levels (optionalBefore r mark) (·.height ≤ tallest levels) := by
  have hfour := four_le_tallest levels
  refine .step .frontKind fun _ => .ite (.step .here fun _ => .pure ?_) (h.expression levels)
  rw [height_absent]
  omega

/-- The node of a statement with a condition and statements below it. -/
theorem height_controlled_le {kind : Node.Kind} {text : String} {location : Position}
    {parts : List Node} (h : ∀ n ∈ parts, n.height ≤ tallest levels + 2) :
    (Node.texted kind text location parts).height ≤ tallest levels + 6 :=
  Nat.le_trans (height_texted_le h) (by omega)

theorem ifStatement (h : r.Builds) :
    Builds levels (ifStatement r) (·.height ≤ tallest levels + 6) := by
  refine .step .takeFront fun _ => .bind (.condition h _ _) fun test htest =>
    .bind (.singleStatement h) fun whenTrue htrue => .step (.accept _) fun _ => ?_
  have htest : test.height ≤ tallest levels + 2 := by omega
  refine .ite ?_ (.pure (height_controlled_le (by simp [htest, htrue])))
  exact .bind (.singleStatement h) fun whenFalse hfalse =>
    .pure (height_controlled_le (by simp [htest, htrue, hfalse]))

theorem whileStatement (h : r.Builds) :
    Builds levels (whileStatement r) (·.height ≤ tallest levels + 6) := by
  refine .step .takeFront fun _ => .bind (.condition h _ _) fun test htest =>
    .bind (.singleStatement h) fun body hbody => ?_
  have htest : test.height ≤ tallest levels + 2 := by omega
  exact .pure (height_controlled_le (by simp [htest, hbody]))

theorem doWhileStatement (h : r.Builds) :
    Builds levels (doWhileStatement r) (·.height ≤ tallest levels + 6) := by
  refine .step .takeFront fun _ => .bind (.singleStatement h) fun body hbody =>
    .step (.require _ _) fun _ => .bind (.condition h _ _) fun test htest =>
    .step (.requireMark _ _) fun _ => ?_
  have htest : test.height ≤ tallest levels + 2 := by omega
  exact .pure (height_controlled_le (by simp [hbody, htest]))

theorem switchStatement (h : r.Builds) :
    Builds levels (switchStatement r) (·.height ≤ tallest levels + 6) := by
  refine .step .takeFront fun _ => .bind (.condition h _ _) fun value hvalue =>
    .bind (.singleStatement h) fun body hbody => ?_
  have hvalue : value.height ≤ tallest levels + 2 := by omega
  exact .pure (height_controlled_le (by simp [hvalue, hbody]))

theorem forStart (h : r.Builds) : Builds levels (forStart r) (·.height ≤ tallest levels + 5) := by
  refine .step .here fun _ => .step (.accept _) fun _ => .ite (.pure ?_) <|
    .step .frontKind fun _ => .ite ?_ ?_
  · rw [height_absent]
    omega
  · refine .bind (.declaration h) fun nodes hnodes => ?_
    split
    · rename_i n
      exact .pure (Nat.le_succ_of_le (hnodes n (by simp)))
    · exact .pure (height_plain_le hnodes)
  · exact .bind (h.expression levels) fun value hvalue => .step (.requireMark _ _) fun _ =>
      .pure (by omega)

theorem forStatement (h : r.Builds) :
    Builds levels (forStatement r) (·.height ≤ tallest levels + 6) := by
  refine .step .takeFront fun _ => .step (.requireMark _ _) fun _ =>
    .bind (.forStart h) fun start hstart => .bind (.optionalBefore h _) fun test htest =>
    .step (.requireMark _ _) fun _ => .bind (.optionalBefore h _) fun step hstep =>
    .step (.requireMark _ _) fun _ => .bind (.singleStatement h) fun body hbody => ?_
  have htest : test.height ≤ tallest levels + 5 := by omega
  have hstep : step.height ≤ tallest levels + 5 := by omega
  have hbody : body.height ≤ tallest levels + 5 := by omega
  exact .pure (height_texted_le (by simp [hstart, htest, hstep, hbody]))

theorem caseLabel (h : r.Builds) :
    Builds levels (caseLabel r) (·.height ≤ tallest levels + 1) :=
  .step .takeFront fun _ => .bind (h.expression levels) fun _ hvalue =>
    .step (.requireMark _ _) fun _ => .pure (height_texted_le (by simpa using hvalue))

theorem defaultLabel : Builds levels defaultLabel (·.height ≤ 1) :=
  .step .takeFront fun _ => .step (.requireMark _ _) fun _ => .pure (height_texted_le (by simp))

theorem label : Builds levels label (·.height ≤ 1) :=
  .step .takeFront fun _ => .step (.requireMark _ _) fun _ => .pure (height_texted_le (by simp))

theorem returnStatement (h : r.Builds) :
    Builds levels (returnStatement r) (·.height ≤ tallest levels + 1) := by
  refine .step .takeFront fun _ => .step .frontKind fun _ => .ite ?_ ?_
  · exact .step (.requireMark _ _) fun _ => .pure (height_texted_le (by simp))
  · exact .bind (h.expression levels) fun _ hvalue => .step (.requireMark _ _) fun _ =>
      .pure (height_texted_le (by simpa using hvalue))

theorem jump (kind : Node.Kind) (word : String) : Builds levels (jump kind word) (·.height ≤ 1) :=
  .step .takeFront fun _ => .step (.requireMark _ _) fun _ => .pure (height_texted_le (by simp))

theorem gotoStatement : Builds levels gotoStatement (·.height ≤ 1) :=
  .step .takeFront fun _ => .step (.require _ _) fun _ => .step (.requireMark _ _) fun _ =>
    .pure (height_texted_le (by simp))

theorem expressionStatement (h : r.Builds) :
    Builds levels (expressionStatement r) (·.height ≤ tallest levels + 1) :=
  .step .here fun _ => .bind (h.expression levels) fun _ hvalue =>
    .step (.requireMark _ _) fun _ => .pure (height_plain_le (by simpa using hvalue))

theorem one {p : Parse Node} {k m : Nat} (h : Builds levels p (·.height ≤ k)) (hle : k ≤ m) :
    Builds levels (one p) fun nodes => ∀ n ∈ nodes, n.height ≤ m :=
  .bind h fun n hn => .pure (by simpa using Nat.le_trans hn hle)

theorem openStatement (h : r.Builds) (kind : Token.Kind) :
    Builds levels (openStatement r kind) fun nodes => ∀ n ∈ nodes, n.height ≤ tallest levels + 6 :=
  .step .labelAhead fun _ => .ite (.one .label (by omega)) <|
    .ite ((declaration h).mono fun _ hnodes n hn => Nat.le_trans (hnodes n hn) (by omega)) <|
    .ite (.one (.expressionStatement h) (by omega)) <|
    .ite .stop (.step .takeFront fun _ => .pure (by simp))

theorem statementOf (h : r.Builds) (kind : Token.Kind) :
    Builds levels (statementOf r kind) fun nodes => ∀ n ∈ nodes, n.height ≤ tallest levels + 6 := by
  unfold Grammar.statementOf
  split
  · exact .one (.ifStatement h) (Nat.le_refl _)
  · exact .one (.forStatement h) (Nat.le_refl _)
  · exact .one (.whileStatement h) (Nat.le_refl _)
  · exact .one (.doWhileStatement h) (Nat.le_refl _)
  · exact .one (.switchStatement h) (Nat.le_refl _)
  · exact .one (.caseLabel h) (by omega)
  · exact .one .defaultLabel (by omega)
  · exact .one (.returnStatement h) (by omega)
  · exact .one (.jump _ _) (by omega)
  · exact .one (.jump _ _) (by omega)
  · exact .one .gotoStatement (by omega)
  · exact .one (.block h) (by omega)
  · exact .one .inclusion (by omega)
  · exact .one (.macroDefinition h) (by omega)
  · exact .one .otherDirective (by omega)
  · exact .openStatement h _

/-- A statement gives back the level that it takes, and what it puts on top of the tallest of the
level below is less than the level is worth. -/
theorem statement (h : r.Builds) : Builds levels (statement r) fun nodes =>
    ∀ n ∈ nodes, n.height ≤ tallest levels + 1 := by
  refine .oneDeeper fun fewer hlevels => .step .frontKind fun kind =>
    (Builds.statementOf h kind).mono fun nodes hnodes n hn => ?_
  have hn := hnodes n hn
  have htall := tallest_succ fewer
  subst hlevels
  omega

/-! ## Items -/

theorem item (h : r.Builds) :
    Builds levels (item r) fun nodes => ∀ n ∈ nodes, n.height ≤ tallest levels + 4 :=
  .step .frontKind fun _ => .ite (.one .inclusion (by omega)) <|
    .ite (.one (.macroDefinition h) (by omega)) <| .ite (.one .otherDirective (by omega)) <|
    .ite (.declaration h) (.step .takeFront fun _ => .pure (by simp))

end Builds

/-- The rules keep to their heights, at any number of levels. -/
theorem Rules.level_builds (levels : Nat) : (Rules.level levels).Builds := by
  induction levels with
  | zero =>
      exact ⟨Rules.level_composed 0, fun _ => .stop, fun _ => .stop,
        fun _ => .paid .stop, fun _ => .stop, fun _ => .stop, fun _ => .stop⟩
  | succ levels ih =>
      exact ⟨Rules.level_composed (levels + 1), fun _ => .expression ih, fun _ => .conditional ih,
        fun _ => .unary ih, fun _ => .initializer ih, fun _ => .structSpecifier ih,
        fun _ => .statement ih⟩

/-! ## Whole files -/

/-- Under a limit of so many levels the nodes of a file are no taller than that allows. -/
structure Progress.Keeps (levels : Nat) (p : Progress) : Prop where
  within : p.state.Within Anywhere
  limit : p.state.limit = levels
  heights : ∀ n ∈ p.nodes, n.height ≤ tallest levels + 4

namespace Progress.Keeps

variable {p : Progress}

theorem spare (h : p.Keeps levels) : p.state.Spare levels :=
  ⟨h.within, h.limit ▸ Nat.le_add_left _ _⟩

theorem flush (h : p.Keeps levels) : p.flush.Keeps levels := by
  obtain ⟨hlimit, hspare, hcomments⟩ := Builds.takeComments h.spare rfl
  refine ⟨hspare.within, hlimit.trans h.limit, List.forall_mem_append.mpr ⟨fun n hn => ?_,
    h.heights⟩⟩
  rw [hcomments n (List.mem_reverse.mp hn)]
  omega

theorem read {found : List Node} {next : State} {many : Nat} (h : p.Keeps levels)
    (hitem : item (.level many) p.state = .ok found next) :
    Keeps levels ⟨found.reverse ++ p.nodes, p.failures, next⟩ := by
  obtain ⟨hlimit, hspare, hfound⟩ := Builds.item (Rules.level_builds many) h.spare hitem
  refine ⟨hspare.within, hlimit.trans h.limit, List.forall_mem_append.mpr ⟨?_, h.heights⟩⟩
  simpa using hfound

theorem recovered {failure : Failure} {failed : State} {many : Nat} (h : p.Keeps levels)
    (hitem : item (.level many) p.state = .error failure failed) :
    Keeps levels ⟨errorNode failure :: p.nodes, failure :: p.failures,
      failed.resume p.state.rest⟩ := by
  have hleads := (Composed.item (Rules.level_composed many)).leads_error hitem
  refine ⟨h.within.resume hleads, hleads.limit.trans h.limit, List.forall_mem_cons.mpr ⟨?_,
    h.heights⟩⟩
  show 1 ≤ _
  omega

end Progress.Keeps

theorem readFile_height (many : Nat) (tokens : List Token) (options : ParseSettings) :
    (readFile (.level many) tokens options).parsed.root.height ≤ (options.maxNesting + 4) ^ 2 := by
  have hends : (readFile (.level many) tokens options).Ends (Progress.Keeps options.maxNesting)
      fun _ _ => True :=
    readItems_keeps (fun p h => h.flush) (fun p h _ found next hitem => h.read hitem)
      (fun p h _ failure failed hitem => ⟨fun _ => h.recovered hitem, fun _ => trivial⟩)
      ⟨State.ofTokens_anywhere tokens options.maxNesting, rfl, by simp⟩
  have htall := tallest_succ options.maxNesting
  have hbound : (options.maxNesting + 4) ^ 2 = _ := tallest_succ (options.maxNesting + 1)
  cases hread : readFile (.level many) tokens options with
  | complete p =>
      rw [hread] at hends
      have hroot : (Ending.complete p).parsed.root.height ≤ tallest options.maxNesting + 5 :=
        Node.height_plain_le (by simpa using hends.heights)
      omega
  | stopped failure state =>
      have hroot : (Ending.stopped failure state).parsed.root.height = 1 := rfl
      omega

end Grammar

open Grammar
open Node (foldWithin countStep errorStep renderStep outlineStep surveyStep)

/-- Trees are no taller than the limit on nesting allows, however many tokens there are. On no way
from the root down are there more nodes, and so many calls inside each other suffice to count the
nodes, to look for errors, to render any node, to lay out the rows and to take a survey. -/
theorem parse_height (tokens : List Token) (options : ParseSettings) :
    let root := (parse tokens options).root
    let bound := (options.maxNesting + 4) ^ 2
    (∀ below, List.IsChain (fun n c => c ∈ n.children) (root :: below) →
        (root :: below).length ≤ bound) ∧
      foldWithin countStep bound root = some root.count ∧
      foldWithin errorStep bound root = some root.hasErrors ∧
      (∀ n ∈ root.preorder, foldWithin renderStep bound n = some n.render) ∧
      foldWithin outlineStep bound root = some (fun depth => root.outlineFrom depth) ∧
      foldWithin surveyStep bound root = some (fun survey => survey.add root) := by
  intro root bound
  have hroot : root.height ≤ bound := by
    show (parse tokens options).root.height ≤ _
    rw [parse_eq_parsed]
    exact readFile_height _ tokens options
  refine ⟨fun below h => Nat.le_trans (Node.length_le_height h) hroot, ?_, ?_, fun n hn => ?_,
    ?_, ?_⟩
  · rw [Node.count_recurses.foldWithin_eq, if_pos hroot]
  · rw [Node.hasErrors_recurses.foldWithin_eq, if_pos hroot]
  · rw [Node.render_recurses.foldWithin_eq,
      if_pos (Nat.le_trans (Node.height_le_of_mem hn) hroot)]
  · rw [Node.outlineFrom_recurses.foldWithin_eq, if_pos hroot]
  · rw [Node.add_recurses.foldWithin_eq, if_pos hroot]

/-- The way down to the value of a variable, which takes the only level there is. -/
theorem parse_height_value :
    let tokens : List Token := [⟨.keyword .intKw, "int", ⟨1, 1⟩⟩, ⟨.identifier, "a", ⟨1, 5⟩⟩,
      ⟨.operator .assign, "=", ⟨1, 7⟩⟩, ⟨.identifier, "b", ⟨1, 9⟩⟩,
      ⟨.delimiter .semicolon, ";", ⟨1, 10⟩⟩, .endOfInput ⟨1, 11⟩]
    let root := (parse tokens ⟨1, true⟩).root
    let value : Node := .texted .identifier "b" ⟨1, 9⟩ []
    let declaration : Node := .texted .variableDeclaration "int" ⟨1, 1⟩
      [.texted .variableDeclarator "a" ⟨1, 5⟩ [], value]
    List.IsChain (fun n c => c ∈ n.children) [root, declaration, value] ∧
      [root, declaration, value].length ≤ 25 ∧ foldWithin countStep 25 root = some 4 := by
  intro tokens root value declaration
  have hdown : List.IsChain (fun n c => c ∈ n.children) [root, declaration, value] := by
    refine .cons_cons ?_ (.cons_cons ?_ (.singleton _))
    · decide +kernel
    · decide
  have hcount : root.count = 4 := by decide +kernel
  obtain ⟨hways, hfold, -⟩ := parse_height tokens ⟨1, true⟩
  exact ⟨hdown, hways _ hdown, hcount ▸ hfold⟩

end CSurvey
