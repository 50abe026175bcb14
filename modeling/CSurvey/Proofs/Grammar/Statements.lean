import CSurvey.Proofs.Grammar.Results

/-! # What statements and items come to

The shapes of the trees for declarations, statements and the items of a file. A statement may come
to several nodes; where the grammar has room for one, they are brought down to one of a shape that
fits there. -/

namespace CSurvey.Grammar

open Node (Fits Kind)

variable {known : Position → Prop} {kinds kinds' : Kind → Bool}

/-- Trees of some class of kinds. -/
def AreOf (known : Position → Prop) (kinds : Kind → Bool) (ns : List Node) : Prop :=
  ∀ n ∈ ns, IsOf known kinds n

namespace AreOf

variable {ns ms : List Node} {n : Node}

theorem nil : AreOf known kinds [] :=
  fun _ hn => absurd hn List.not_mem_nil

theorem cons (hn : IsOf known kinds n) (hns : AreOf known kinds ns) :
    AreOf known kinds (n :: ns) :=
  List.forall_mem_cons.mpr ⟨hn, hns⟩

theorem append (hns : AreOf known kinds ns) (hms : AreOf known kinds ms) :
    AreOf known kinds (ns ++ ms) :=
  List.forall_mem_append.mpr ⟨hns, hms⟩

theorem reverse (hns : AreOf known kinds ns) : AreOf known kinds ns.reverse :=
  fun n hn => hns n (List.mem_reverse.mp hn)

theorem mono (hns : AreOf known kinds ns) (hk : ∀ k, kinds k = true → kinds' k = true) :
    AreOf known kinds' ns :=
  fun n hn => (hns n hn).mono hk

theorem fits (hns : AreOf known kinds ns) : ∀ n ∈ ns, n.Fits known :=
  fun n hn => (hns n hn).1

theorem all_kind (hns : AreOf known kinds ns) : (ns.map Node.kind).all kinds = true := by
  rw [List.all_map]
  exact List.all_eq_true.mpr fun n hn => (hns n hn).2

end AreOf

namespace Yields

variable {r : Rules}

theorem takeComments : Yields known takeComments (AreOf known (· = .comment)) := by
  intro s t comments hs h
  obtain ⟨rfl, rfl⟩ := EStateM.Result.ok.inj h
  have hpassed := hs.passTrivia.comments
  refine ⟨⟨hs.passTrivia.rest, hs.stop, by simp⟩, fun n hn => ?_⟩
  exact ⟨(hpassed n hn).1, by simpa using (hpassed n hn).2⟩

/-! ## Declarations -/

theorem block (h : Yields known r.statement (AreOf known Kind.isStatement)) :
    Yields known (block r) (IsOf known (· = .block)) := by
  refine .bind (.requireMark _ _) fun brace hbrace => ?_
  refine .bind (.loop (I := AreOf known Kind.isStatement) (D := AreOf known Kind.isStatement)
    (fun found hfound => ?_) .nil) fun found hfound => ?_
  · refine .bind .takeComments fun comments hcomments => ?_
    have hall : AreOf known Kind.isStatement (comments.reverse ++ found) :=
      (hcomments.mono (by decide)).reverse.append hfound
    refine .bind .frontKind fun kind _ => ?_
    split
    · exact .pure hall
    · exact .stop
    · exact .bind h fun nodes hnodes => .pure (hnodes.reverse.append hall)
  · refine .bind (.requireMark _ _) fun _ _ => .pure (.plain rfl hbrace hfound.reverse.fits ?_)
    exact hfound.reverse.all_kind

/-- The body of a struct, if there is one, closes a node for a function that is defined. -/
theorem functionDefinition {location : Position} {d code : Node} {body : Option Node}
    (type : String) (hl : known location) (hd : IsOf known (· = .functionDeclarator) d)
    (hcode : IsOf known (· = .block) code)
    (hbody : ∀ n ∈ body, IsOf known (· = .structDefinition) n) :
    IsOf known Kind.isDeclaration
      (.texted .functionDefinition type location (d :: code :: body.toList)) := by
  have hk := of_decide_eq_true hd.2
  have hk' := of_decide_eq_true hcode.2
  cases body with
  | none =>
      refine .texted rfl hl (by simp [hd.1, hcode.1]) ?_
      simp [Kind.admits, Kind.hasText, hk, hk']
  | some n =>
      have hn := hbody n rfl
      have hk'' := of_decide_eq_true hn.2
      refine .texted rfl hl (by simp [hd.1, hcode.1, hn.1]) ?_
      simp [Kind.admits, Kind.hasText, hk, hk', hk'']

theorem declaredNames (hy : r.Yields known)
    (h : Yields known r.statement (AreOf known Kind.isStatement)) {location : Position}
    (hl : known location) (type : TypeSpecifier) {body : Option Node}
    (hbody : ∀ n ∈ body, IsOf known (· = .structDefinition) n) :
    Yields known (declaredNames r location type body) fun names =>
      AreOf known Kind.isDeclaration names.nodes := by
  refine .loop (I := fun names => AreOf known Kind.isDeclaration names.nodes)
    (fun names hnames => ?_) .nil
  refine .bind (.declarator hy) fun d hd => .bind .frontKind fun kind _ => ?_
  have hfirst : ∀ n ∈ (if names.nodes.isEmpty then body else none),
      IsOf known (· = .structDefinition) n := by
    split
    · exact hbody
    · simp
  apply Yields.ite
  · intro hf
    have hfunction : d.declaresFunction = true := by
      simp only [Bool.and_eq_true] at hf
      exact hf.1
    refine .bind (.block h) fun code hcode => .pure (.cons ?_ hnames)
    exact functionDefinition _ hl ⟨hd.1, hfunction⟩ hcode hfirst
  · intro _
    refine .bind (.declared hy hl _ hd hfirst) fun node hnode => .bind (.accept _) fun _ _ => ?_
    have hall : AreOf known Kind.isDeclaration (node :: names.nodes) :=
      .cons (hnode.mono (by decide)) hnames
    exact .ite (fun _ => .pure hall) fun _ => .pure hall

theorem declaration (hy : r.Yields known)
    (h : Yields known r.statement (AreOf known Kind.isStatement)) :
    Yields known (declaration r) (AreOf known Kind.isDeclaration) := by
  refine .bind .here fun location hl => .bind (.typeSpecifier hy) fun type htype =>
    .bind (.accept _) fun _ _ => .ite (fun _ => .pure ?_) fun _ => ?_
  · intro n hn
    exact (htype n (by simpa using hn)).mono (by decide)
  · have hbody : ∀ n ∈ type.structNode.filter fun n => n.kind = .structDefinition,
        IsOf known (· = .structDefinition) n := by
      intro n hn
      obtain ⟨hmem, hk⟩ := Option.filter_eq_some_iff.mp hn
      exact ⟨(htype n hmem).1, hk⟩
    refine .bind (.declaredNames hy h hl _ hbody) fun names hnames =>
      .ite (fun _ => .pure hnames.reverse) fun _ => ?_
    exact .bind (.requireMark _ _) fun _ _ => .pure hnames.reverse

/-! ## Statements -/

/-- What several nodes are brought down to has the shape of a single statement. -/
theorem asSingle {location : Position} {nodes : List Node} (hl : known location)
    (h : AreOf known Kind.isStatement nodes) :
    IsOf known Kind.isBody (asSingle location nodes) := by
  match nodes with
  | [] => exact .absent rfl hl
  | [n] => exact (h n (List.mem_singleton.mpr rfl)).mono (by decide)
  | n :: m :: nodes => exact .plain rfl hl h.fits h.all_kind

theorem singleStatement (h : Yields known r.statement (AreOf known Kind.isStatement)) :
    Yields known (singleStatement r) (IsOf known Kind.isBody) :=
  .bind .here fun _ hl => .bind h fun _ hnodes => .pure (asSingle hl hnodes)

theorem ifStatement (hy : r.Yields known)
    (h : Yields known r.statement (AreOf known Kind.isStatement)) :
    Yields known (ifStatement r) (IsOf known (· = .ifStatement)) := by
  refine .bind .takeFront fun keyword hk => .bind (.condition hy _ _) fun test ht =>
    .bind (.singleStatement h) fun yes hyes => .bind (.accept _) fun _ _ =>
    .ite (fun _ => ?_) fun _ => .pure ?_
  · refine .bind (.singleStatement h) fun no hno => .pure ?_
    refine .texted rfl hk (by simp [ht.1, hyes.1, hno.1]) ?_
    simp [Kind.admits, Kind.hasText, ht.2, hyes.2, hno.2]
  · refine .texted rfl hk (by simp [ht.1, hyes.1]) ?_
    simp [Kind.admits, Kind.hasText, ht.2, hyes.2]

theorem forStart (hy : r.Yields known)
    (h : Yields known r.statement (AreOf known Kind.isStatement)) :
    Yields known (forStart r) (IsOf known Kind.isLoopStart) := by
  refine .bind .here fun location hl => .bind (.accept _) fun _ _ =>
    .ite (fun _ => .pure (.absent rfl hl)) fun _ => .bind .frontKind fun _ _ =>
    .ite (fun _ => ?_) fun _ => ?_
  · refine .bind (.declaration hy h) fun nodes hnodes => ?_
    split
    · exact .pure ((hnodes _ (List.mem_singleton.mpr rfl)).mono (by decide))
    · have hstatements : AreOf known Kind.isStatement nodes := hnodes.mono (by decide)
      exact .pure (.plain rfl hl hstatements.fits hstatements.all_kind)
  · exact .bind hy.expression fun _ hv => .bind (.requireMark _ _) fun _ _ =>
      .pure (hv.mono (by decide))

theorem forStatement (hy : r.Yields known)
    (h : Yields known r.statement (AreOf known Kind.isStatement)) :
    Yields known (forStatement r) (IsOf known (· = .forStatement)) := by
  refine .bind .takeFront fun keyword hk => .bind (.requireMark _ _) fun _ _ =>
    .bind (.forStart hy h) fun start hstart => .bind (.optionalBefore hy _) fun test ht =>
    .bind (.requireMark _ _) fun _ _ => .bind (.optionalBefore hy _) fun step hstep =>
    .bind (.requireMark _ _) fun _ _ => .bind (.singleStatement h) fun body hbody => .pure ?_
  refine .texted rfl hk (by simp [hstart.1, ht.1, hstep.1, hbody.1]) ?_
  simp [Kind.admits, Kind.hasText, hstart.2, ht.2, hstep.2, hbody.2]

theorem whileStatement (hy : r.Yields known)
    (h : Yields known r.statement (AreOf known Kind.isStatement)) :
    Yields known (whileStatement r) (IsOf known (· = .whileStatement)) := by
  refine .bind .takeFront fun keyword hk => .bind (.condition hy _ _) fun test ht =>
    .bind (.singleStatement h) fun body hbody => .pure ?_
  refine .texted rfl hk (by simp [ht.1, hbody.1]) ?_
  simp [Kind.admits, Kind.hasText, ht.2, hbody.2]

theorem doWhileStatement (hy : r.Yields known)
    (h : Yields known r.statement (AreOf known Kind.isStatement)) :
    Yields known (doWhileStatement r) (IsOf known (· = .doWhileStatement)) := by
  refine .bind .takeFront fun keyword hk => .bind (.singleStatement h) fun body hbody =>
    .bind (.require _ _) fun _ _ => .bind (.condition hy _ _) fun test ht =>
    .bind (.requireMark _ _) fun _ _ => .pure ?_
  refine .texted rfl hk (by simp [ht.1, hbody.1]) ?_
  simp [Kind.admits, Kind.hasText, ht.2, hbody.2]

theorem switchStatement (hy : r.Yields known)
    (h : Yields known r.statement (AreOf known Kind.isStatement)) :
    Yields known (switchStatement r) (IsOf known (· = .switchStatement)) := by
  refine .bind .takeFront fun keyword hk => .bind (.condition hy _ _) fun value hv =>
    .bind (.singleStatement h) fun body hbody => .pure ?_
  refine .texted rfl hk (by simp [hv.1, hbody.1]) ?_
  simp [Kind.admits, Kind.hasText, hv.2, hbody.2]

theorem one {p : Parse Node} (hp : Yields known p (IsOf known kinds))
    (hk : ∀ k, kinds k = true → kinds' k = true) :
    Yields known (one p) (AreOf known kinds') :=
  .bind hp fun _ hn => .pure (.cons (hn.mono hk) .nil)

theorem openStatement (hy : r.Yields known)
    (h : Yields known r.statement (AreOf known Kind.isStatement)) (kind : Token.Kind) :
    Yields known (openStatement r kind) (AreOf known Kind.isStatement) := by
  refine .bind Composed.labelAhead.yields fun _ _ => .ite (fun _ => .one .label (by decide))
    fun _ => .ite (fun _ => (declaration hy h).mono fun _ hns => hns.mono (by decide)) fun _ =>
    .ite (fun _ => .one (.expressionStatement hy) (by decide)) fun _ =>
    .ite (fun _ => .stop) fun _ => .bind .takeFront fun _ _ => .pure .nil

theorem statementOf (hy : r.Yields known)
    (h : Yields known r.statement (AreOf known Kind.isStatement)) (kind : Token.Kind) :
    Yields known (statementOf r kind) (AreOf known Kind.isStatement) := by
  unfold Grammar.statementOf
  split
  · exact .one (.ifStatement hy h) (by decide)
  · exact .one (.forStatement hy h) (by decide)
  · exact .one (.whileStatement hy h) (by decide)
  · exact .one (.doWhileStatement hy h) (by decide)
  · exact .one (.switchStatement hy h) (by decide)
  · exact .one (.caseLabel hy) (by decide)
  · exact .one .defaultLabel (by decide)
  · exact .one (.returnStatement hy) (by decide)
  · exact .one (.jump _ rfl) (by decide)
  · exact .one (.jump _ rfl) (by decide)
  · exact .one .gotoStatement (by decide)
  · exact .one (.block h) (by decide)
  · exact .one .inclusion (by decide)
  · exact .one (.macroDefinition hy) (by decide)
  · exact .one .otherDirective (by decide)
  · exact .openStatement hy h _

theorem statement (hy : r.Yields known)
    (h : Yields known r.statement (AreOf known Kind.isStatement)) :
    Yields known (statement r) (AreOf known Kind.isStatement) :=
  .oneDeeper <| .bind .frontKind fun _ _ => .statementOf hy h _

end Yields

/-- Statements come to trees of the right shape, at any number of levels. -/
theorem Rules.level_yields_statement (levels : Nat) :
    Grammar.Yields known (Rules.level levels).statement (AreOf known Kind.isStatement) := by
  induction levels with
  | zero => exact .stop
  | succ levels ih => exact .statement (Rules.level_yields levels) ih

/-! ## Items -/

/-- An item comes to parts of a file, and to no error. -/
theorem Yields.item (levels : Nat) :
    Yields known (item (.level levels)) (AreOf known Kind.isPart) := by
  have hy : (Rules.level levels).Yields known := Rules.level_yields levels
  have h : Yields known (Rules.level levels).statement (AreOf known Kind.isStatement) :=
    Rules.level_yields_statement levels
  exact .bind .frontKind fun _ _ => .ite (fun _ => .one .inclusion (by decide)) fun _ =>
    .ite (fun _ => .one (.macroDefinition hy) (by decide)) fun _ =>
    .ite (fun _ => .one .otherDirective (by decide)) fun _ =>
    .ite (fun _ => (declaration hy h).mono fun _ hns => hns.mono (by decide)) fun _ =>
    .bind .takeFront fun _ _ => .pure .nil

end CSurvey.Grammar
