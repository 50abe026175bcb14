import CSurvey.Proofs.Grammar.Items
import CSurvey.Proofs.Grammar.Results
import CSurvey.Proofs.Token.Tiling

/-! # Comments are kept

Every comment of a source becomes one node of its tree, in the order of the source, however many
items cannot be read. -/

namespace CSurvey.Grammar

open Node (Fits Kind commentsIn commentsIn_nil commentsIn_append commentsIn_cons)

/-- Any place. -/
def Anywhere (_ : Position) : Prop := True

/-- The reader goes on from comments already handed out, and its result has these and those that
it hands out itself. -/
def Carries {α : Type} (before : List Node) (p : Parse α) (comments : α → List Node) : Prop :=
  ∀ ⦃s t : State⦄ ⦃a : α⦄, s.Within Anywhere → p s = .ok a t →
    t.Within Anywhere ∧ ∃ given, comments a = before ++ given ∧ Accounts s t given

namespace Carries

variable {before : List Node} {r : Rules}

theorem pure {α : Type} {a : α} {comments : α → List Node} (h : comments a = before) :
    Carries before (pure a) comments := by
  intro s t b hs hb
  obtain ⟨rfl, rfl⟩ := pure_eq_ok.mp hb
  exact ⟨hs, [], by simpa using h, .refl s⟩

theorem bind {α β : Type} {p : Parse α} {f : α → Parse β} {comments : α → List Node}
    {comments' : β → List Node} (hp : Carries [] p comments)
    (hf : ∀ a, Carries (before ++ comments a) (f a) comments') :
    Carries before (p >>= f) comments' := by
  intro s t b hs hb
  obtain ⟨a, u, ha, hb⟩ := bind_eq_ok.mp hb
  obtain ⟨hu, given, hgiven, hsu⟩ := hp hs ha
  obtain ⟨ht, given', hgiven', hut⟩ := hf a hu hb
  exact ⟨ht, given ++ given', by simpa [hgiven] using hgiven', hsu.trans hut⟩

/-- A part that collects no comments, of whose result something is known. -/
theorem bindQuiet {α β : Type} {p : Parse α} {f : α → Parse β} {Q : α → Prop}
    {comments : β → List Node} (hc : Composed false true p)
    (hp : Yields Anywhere p Q) (hf : ∀ a, Q a → Carries before (f a) comments) :
    Carries before (p >>= f) comments := by
  intro s t b hs hb
  obtain ⟨a, u, ha, hb⟩ := bind_eq_ok.mp hb
  obtain ⟨hu, hQ⟩ := hp hs ha
  obtain ⟨ht, given, hgiven, hut⟩ := hf a hQ hu hb
  exact ⟨ht, given, hgiven, (hc.accounts ha).after hut⟩

/-- A part that collects no comments and of whose result nothing need be known. -/
theorem bindPlain {α β : Type} {p : Parse α} {f : α → Parse β} {comments : β → List Node}
    (hc : Composed false true p) (hf : ∀ a, Carries before (f a) comments) :
    Carries before (p >>= f) comments :=
  bindQuiet hc hc.relax.yields fun a _ => hf a

theorem stop {α : Type} {f : State → Failure} {comments : α → List Node} :
    Carries before (fun s => .error (f s) s) comments := by
  intro s t a hs ha
  simp at ha

theorem ite {α : Type} {c : Prop} [Decidable c] {p q : Parse α} {comments : α → List Node}
    (hp : c → Carries before p comments) (hq : ¬c → Carries before q comments) :
    Carries before (if c then p else q) comments := by
  split
  · exact hp ‹c›
  · exact hq ‹¬c›

theorem oneDeeper {α : Type} {p : Parse α} {comments : α → List Node}
    (hp : Carries before p comments) : Carries before (oneDeeper p) comments := by
  intro s t a hs ha
  obtain ⟨-, u, hu, rfl⟩ := oneDeeper_eq_ok.mp ha
  have hdeep : State.Within { s with depth := s.depth + 1 } Anywhere :=
    ⟨hs.rest, hs.stop, hs.comments⟩
  obtain ⟨hwithin, given, hgiven, hacc⟩ := hp hdeep hu
  exact ⟨⟨hwithin.rest, hwithin.stop, hwithin.comments⟩, given, hgiven, hacc⟩

/-- Every round goes on from the comments of the value so far. -/
theorem loop {α : Type} {round : α → Parse (Turn α)} {C : α → List Node} {value : α}
    (hround : ∀ a, Carries (C a) (round a) fun
      | .again b => C b
      | .done b => C b)
    (h : C value = before) : Carries before (loop round value) C := by
  intro s t a hs ha
  let I := fun (b : α) (u : State) =>
    u.Within Anywhere ∧ ∃ given, C b = before ++ given ∧ Accounts s u given
  refine loop_ok (I := I) (D := I) ?_ ⟨hs, [], by simpa using h, .refl s⟩ ha
  rintro b u turn v ⟨hu, given, hgiven, hsu⟩ hv
  obtain ⟨hwithin, given', hgiven', huv⟩ := hround b hu hv
  have hall : I (match turn with | .again b => b | .done b => b) v := by
    cases turn with
    | again _ => exact ⟨hwithin, given ++ given', by simpa [hgiven] using hgiven', hsu.trans huv⟩
    | done _ => exact ⟨hwithin, given ++ given', by simpa [hgiven] using hgiven', hsu.trans huv⟩
  cases turn with
  | again _ => exact hall
  | done _ => exact hall

theorem takeComments : Carries [] takeComments fun comments => commentsIn comments := by
  intro s t a hs ha
  have hacc := Accounts.takeComments ha
  obtain ⟨rfl, rfl⟩ := EStateM.Result.ok.inj ha
  refine ⟨⟨hs.passTrivia.rest, hs.stop, by simp⟩, _, ?_, hacc⟩
  simpa using Node.commentsIn_of_comments hs.passTrivia.comments

/-! ## Declarations -/

variable {kinds : Kind → Bool}

theorem commentsIn_eq_nil {ns : List Node} (h : ∀ n ∈ ns, IsOf Anywhere kinds n)
    (hk : ∀ k, kinds k = true → k.isQuiet = true) : commentsIn ns = [] :=
  Node.commentsIn_of_isQuiet fun n hn => (h n hn).mono hk

theorem commentsIn_of_isOf {n : Node} (h : IsOf Anywhere kinds n)
    (hk : ∀ k, kinds k = true → k.isQuiet = true) : commentsIn [n] = [] :=
  commentsIn_eq_nil (by simpa using h) hk

theorem block (h : Carries [] r.statement commentsIn) :
    Carries [] (block r) fun n => commentsIn [n] := by
  refine bindPlain (.requireMark _ _) fun brace => ?_
  refine bind (.loop (C := fun found => commentsIn found.reverse) ?_ rfl) fun found =>
    bindPlain (.requireMark _ _) fun _ => .pure ?_
  · intro found
    refine bind takeComments fun comments => bindPlain .frontKind fun kind => ?_
    split
    · exact .pure (by simp [commentsIn_append])
    · exact .stop
    · exact bind h fun nodes => .pure (by simp [commentsIn_append])
  · simp

theorem declaredNames (hy : r.Yields Anywhere) (h : Carries [] r.statement commentsIn)
    {type : TypeSpecifier} {body : Option Node}
    (hbody : ∀ n ∈ body, IsOf Anywhere (· = .structDefinition) n) (location : Position) :
    Carries [] (declaredNames r location type body) fun names : DeclaredNames =>
      commentsIn names.nodes.reverse := by
  refine .loop (C := fun names : DeclaredNames => commentsIn names.nodes.reverse)
    (fun names => ?_) rfl
  refine bindQuiet (.relax (.declarator hy.composed)) (.declarator hy) fun d hd =>
    bindPlain .frontKind fun kind => ?_
  have hdeclarator := commentsIn_of_isOf hd Kind.isQuiet_of_isDeclarator
  have hb : ∀ n ∈ (if names.nodes.isEmpty then body else none),
      IsOf Anywhere (· = .structDefinition) n := by
    split
    · exact hbody
    · simp
  have hstruct : commentsIn (if names.nodes.isEmpty then body else none).toList = [] :=
    commentsIn_eq_nil (fun n hn => hb n (by simpa using hn)) (by decide)
  refine .ite (fun _ => ?_) fun _ => ?_
  · refine bind (block h) fun code => .pure ?_
    have hcode : commentsIn (d.node :: code :: (if names.nodes.isEmpty then body else none).toList)
        = commentsIn [code] := by
      rw [commentsIn_cons, commentsIn_cons code, hdeclarator, hstruct]
      simp
    simpa [commentsIn_append] using hcode
  · refine bindQuiet (.relax (.declared hy.composed _ _ _ _)) (.declared hy trivial _ hd hb)
      fun node hnode =>
      bindPlain (.accept _) fun _ => ?_
    have hquiet := commentsIn_of_isOf hnode (by decide)
    exact .ite (fun _ => .pure (by simp [commentsIn_append, hquiet]))
      fun _ => .pure (by simp [commentsIn_append, hquiet])

theorem declaration (hy : r.Yields Anywhere)
    (h : Carries [] r.statement commentsIn) : Carries [] (declaration r) commentsIn := by
  refine bindPlain .here fun location =>
    bindQuiet (.relax (.typeSpecifier hy.composed)) (.typeSpecifier hy) fun type htype =>
    bindPlain (.accept _) fun _ => .ite (fun _ => .pure ?_) fun _ => ?_
  · exact commentsIn_eq_nil (fun n hn => htype n (by simpa using hn)) (by decide)
  · refine bind (declaredNames hy h ?_ _) fun names => .ite (fun _ => .pure (by simp)) fun _ =>
      bindPlain (.requireMark _ _) fun _ => .pure (by simp)
    intro n hn
    have hn := Option.filter_eq_some_iff.mp hn
    exact ⟨(htype n hn.1).1, hn.2⟩

/-! ## Statements -/

/-- The comments of the only node of a statement. -/
theorem one {p : Parse Node} (h : Carries [] p fun n => commentsIn [n]) :
    Carries [] (one p) commentsIn :=
  bind h fun _ => .pure rfl

/-- A statement whose only node has no comments. -/
theorem oneQuiet {p : Parse Node} (hc : Composed false true p)
    (hp : Yields Anywhere p (IsOf Anywhere kinds))
    (hk : ∀ k, kinds k = true → k.isQuiet = true) : Carries [] (Grammar.one p) commentsIn :=
  bindQuiet hc hp fun _ hn => .pure (commentsIn_of_isOf hn hk)

theorem commentsIn_asSingle (location : Position) (nodes : List Node) :
    commentsIn [asSingle location nodes] = commentsIn nodes := by
  match nodes with
  | [] => rfl
  | [_] => rfl
  | _ :: _ :: _ => simp [asSingle]

theorem singleStatement (h : Carries [] r.statement commentsIn) :
    Carries [] (singleStatement r) fun n => commentsIn [n] :=
  bindPlain .here fun location => bind h fun nodes =>
    .pure (by simp [commentsIn_asSingle])

theorem ifStatement (hy : r.Yields Anywhere) (h : Carries [] r.statement commentsIn) :
    Carries [] (ifStatement r) fun n => commentsIn [n] := by
  refine bindPlain .takeFront fun keyword => bindQuiet (.relax (.condition hy.composed _ _))
    (.condition hy _ _) fun test ht => bind (singleStatement h) fun whenTrue =>
    bindPlain (.accept _) fun _ => .ite (fun _ => ?_) fun _ => .pure ?_
  · have htest := commentsIn_of_isOf ht Kind.isQuiet_of_isTerm
    refine bind (singleStatement h) fun whenFalse => .pure ?_
    simp [htest]
  · have htest := commentsIn_of_isOf ht Kind.isQuiet_of_isTerm
    simp [htest]

theorem forStart (hy : r.Yields Anywhere) (h : Carries [] r.statement commentsIn) :
    Carries [] (forStart r) fun n => commentsIn [n] := by
  refine bindPlain .here fun location => bindPlain (.accept _) fun _ => .ite (fun _ => .pure ?_)
    fun _ => bindPlain .frontKind fun _ => .ite (fun _ => ?_) fun _ => ?_
  · rfl
  · refine bind (declaration hy h) fun nodes => ?_
    split
    · exact .pure rfl
    · exact .pure (by simp)
  · refine bindQuiet (.relax hy.composed.expression) hy.expression fun value hv =>
      bindPlain (.requireMark _ _) fun _ => .pure ?_
    exact commentsIn_of_isOf hv Kind.isQuiet_of_isTerm

theorem forStatement (hy : r.Yields Anywhere) (h : Carries [] r.statement commentsIn) :
    Carries [] (forStatement r) fun n => commentsIn [n] := by
  refine bindPlain .takeFront fun keyword => bindPlain (.requireMark _ _) fun _ =>
    bind (forStart hy h) fun start =>
    bindQuiet (.relax (.optionalBefore hy.composed _)) (.optionalBefore hy _) fun test ht =>
    bindPlain (.requireMark _ _) fun _ =>
    bindQuiet (.relax (.optionalBefore hy.composed _)) (.optionalBefore hy _) fun step hs =>
    bindPlain (.requireMark _ _) fun _ => bind (singleStatement h) fun body => .pure ?_
  have htest := commentsIn_of_isOf ht Kind.isQuiet_of_isOptionalTerm
  have hstep := commentsIn_of_isOf hs Kind.isQuiet_of_isOptionalTerm
  simp [htest, hstep]

theorem whileStatement (hy : r.Yields Anywhere) (h : Carries [] r.statement commentsIn) :
    Carries [] (whileStatement r) fun n => commentsIn [n] := by
  refine bindPlain .takeFront fun keyword => bindQuiet (.relax (.condition hy.composed _ _))
    (.condition hy _ _) fun test ht => bind (singleStatement h) fun body => .pure ?_
  have htest := commentsIn_of_isOf ht Kind.isQuiet_of_isTerm
  simp [htest]

theorem doWhileStatement (hy : r.Yields Anywhere) (h : Carries [] r.statement commentsIn) :
    Carries [] (doWhileStatement r) fun n => commentsIn [n] := by
  refine bindPlain .takeFront fun keyword => bind (singleStatement h) fun body =>
    bindPlain (.require _ _) fun _ =>
    bindQuiet (.relax (.condition hy.composed _ _)) (.condition hy _ _)
    fun test ht => bindPlain (.requireMark _ _) fun _ => .pure ?_
  have htest := commentsIn_of_isOf ht Kind.isQuiet_of_isTerm
  simp [htest]

theorem switchStatement (hy : r.Yields Anywhere) (h : Carries [] r.statement commentsIn) :
    Carries [] (switchStatement r) fun n => commentsIn [n] := by
  refine bindPlain .takeFront fun keyword => bindQuiet (.relax (.condition hy.composed _ _))
    (.condition hy _ _) fun value hv => bind (singleStatement h) fun body => .pure ?_
  have hvalue := commentsIn_of_isOf hv Kind.isQuiet_of_isTerm
  simp [hvalue]

theorem openStatement (hy : r.Yields Anywhere) (h : Carries [] r.statement commentsIn)
    (kind : Token.Kind) : Carries [] (openStatement r kind) commentsIn :=
  bindPlain .labelAhead fun _ => .ite (fun _ => oneQuiet .label .label (by decide)) fun _ =>
    .ite (fun _ => declaration hy h) fun _ =>
    .ite (fun _ => oneQuiet (.relax (.expressionStatement hy.composed)) (.expressionStatement hy)
      (by decide)) fun _ =>
    .ite (fun _ => .stop) fun _ => bindPlain .takeFront fun _ => .pure rfl

theorem statementOf (hy : r.Yields Anywhere) (h : Carries [] r.statement commentsIn)
    (kind : Token.Kind) : Carries [] (statementOf r kind) commentsIn := by
  unfold Grammar.statementOf
  split
  · exact one (ifStatement hy h)
  · exact one (forStatement hy h)
  · exact one (whileStatement hy h)
  · exact one (doWhileStatement hy h)
  · exact one (switchStatement hy h)
  · exact oneQuiet (.relax (.caseLabel hy.composed)) (.caseLabel hy) (by decide)
  · exact oneQuiet .defaultLabel .defaultLabel (by decide)
  · exact oneQuiet (.relax (.returnStatement hy.composed)) (.returnStatement hy) (by decide)
  · exact oneQuiet (.jump _ _) (.jump _ rfl) (by decide)
  · exact oneQuiet (.jump _ _) (.jump _ rfl) (by decide)
  · exact oneQuiet .gotoStatement .gotoStatement (by decide)
  · exact one (block h)
  · exact oneQuiet .inclusion .inclusion (by decide)
  · exact oneQuiet (.macroDefinition hy.composed) (.macroDefinition hy) (by decide)
  · exact oneQuiet .otherDirective .otherDirective (by decide)
  · exact openStatement hy h _

theorem statement (hy : r.Yields Anywhere) (h : Carries [] r.statement commentsIn) :
    Carries [] (statement r) commentsIn :=
  oneDeeper <| bindPlain .frontKind fun _ => statementOf hy h _

/-! ## Items -/

theorem item (hy : r.Yields Anywhere) (h : Carries [] r.statement commentsIn) :
    Carries [] (item r) commentsIn :=
  bindPlain .frontKind fun _ =>
    .ite (fun _ => oneQuiet .inclusion .inclusion (by decide)) fun _ =>
    .ite (fun _ => oneQuiet (.macroDefinition hy.composed) (.macroDefinition hy) (by decide))
      fun _ => .ite (fun _ => oneQuiet .otherDirective .otherDirective (by decide)) fun _ =>
    .ite (fun _ => declaration hy h) fun _ => bindPlain .takeFront fun _ => .pure rfl

end Carries

theorem Rules.level_carries (levels : Nat) :
    Carries [] (Rules.level levels).statement commentsIn := by
  induction levels with
  | zero => exact .stop
  | succ levels ih => exact .statement (Rules.level_yields levels) ih

/-! ## Whole files -/

/-- The comments that are given, set aside or still to come. -/
def Progress.commentsDue (p : Progress) : List Node :=
  commentsIn p.nodes.reverse ++ (p.state.comments ++ commentNodes p.state.rest)

theorem Progress.commentsDue_flush {p : Progress} (h : p.state.Within Anywhere) :
    p.flush.commentsDue = p.commentsDue := by
  have hcomments := Node.commentsIn_of_comments h.passTrivia.comments
  have hdue := (Accounts.passTrivia p.state).due
  simp only [List.nil_append] at hdue
  simp [commentsDue, flush, commentsIn_append, hcomments, hdue]

theorem Progress.flush_within {known : Position → Prop} {p : Progress}
    (h : p.state.Within known) : p.flush.state.Within known :=
  ⟨h.passTrivia.rest, h.stop, by simp [flush]⟩

theorem State.Within.resume {known : Position → Prop} {s failed : State} (h : s.Within known)
    (hfailed : s.Leads failed) : (failed.resume s.rest).Within known := by
  obtain ⟨passed, hrest, hfound⟩ := skips_behindItem
    ((s.rest.head?.map fun t => t.kind.isDirective).getD false) true 0 s.rest
  refine ⟨fun t ht => ?_, ?_, fun n hn => ?_⟩
  · apply h.rest
    rw [hrest]
    exact List.mem_append_right passed ht
  · show known failed.stop
    rw [hfailed.stop]
    exact h.stop
  · have hmem : n ∈ commentNodes passed := hfound ▸ hn
    obtain ⟨t, ht, rfl⟩ := List.mem_map.mp hmem
    refine ⟨asComment_fits (h.rest t ?_), rfl⟩
    rw [hrest]
    exact List.mem_append_left _ (List.mem_filter.mp ht).1

/-- Nodes that hand out comments leave as many due as before. -/
theorem Progress.commentsDue_step {p : Progress} (hp : p.state.comments = []) {found : List Node}
    {next : State} (h : Accounts p.state next (commentsIn found)) (failures : List Failure) :
    Progress.commentsDue ⟨found.reverse ++ p.nodes, failures, next⟩ = p.commentsDue := by
  have hdue := h.due
  rw [hp, List.nil_append] at hdue
  simp [commentsDue, commentsIn_append, hp, hdue]

/-- With recovery, the reading of a file comes to its end, and the nodes hold all comments. -/
theorem readItems_complete {r : Rules} (hy : r.Yields Anywhere)
    (h : Carries [] r.statement commentsIn) {fuel : List Token} {p : Progress}
    (hfuel : p.state.rest.length ≤ fuel.length) (hp : p.state.Within Anywhere) :
    ∃ q, readItems r true fuel p = .complete q ∧ commentsIn q.nodes.reverse = p.commentsDue := by
  have hdone : ∀ {p : Progress} {fuel : List Token}, p.state.Within Anywhere →
      p.flush.state.rest = [] →
      ∃ q, readItems r true fuel p = .complete q ∧
        commentsIn q.nodes.reverse = p.commentsDue := by
    intro p fuel hp hend
    refine ⟨p.flush, readItems_end hend, ?_⟩
    rw [← Progress.commentsDue_flush hp, Progress.commentsDue, hend]
    simp [Progress.flush, commentNodes]
  induction fuel generalizing p with
  | nil =>
      exact hdone hp <| List.length_eq_zero_iff.mp <|
        Nat.le_zero.mp (Nat.le_trans p.length_flush_le hfuel)
  | cons x fuel ih =>
      by_cases hend : p.flush.state.rest = []
      · exact hdone hp hend
      · have hwithin := Progress.flush_within hp
        have hshort : ∀ s : State, s.rest.length < p.flush.state.rest.length →
            s.rest.length ≤ fuel.length := by
          intro s hs
          have hle := p.length_flush_le
          simp only [List.length_cons] at hfuel
          omega
        rw [readItems_cons hend, ← Progress.commentsDue_flush hp]
        cases hitem : item r p.flush.state with
        | ok found next =>
            obtain ⟨hnext, given, rfl, hacc⟩ := Carries.item hy h hwithin hitem
            have hopen : p.flush.state.Open := by rwa [State.Open, p.settled_flush]
            have hlt := Advances.item hy.composed ⟨p.settled_flush, hopen⟩ hitem trivial
            obtain ⟨q, hq, hqc⟩ := ih (p := ⟨_, p.failures, next⟩) (hshort next hlt) hnext
            exact ⟨q, hq, hqc.trans (Progress.commentsDue_step rfl hacc _)⟩
        | error failure failed =>
            have hacc := State.accounts_resume failed (s := p.flush.state) rfl
            have hlt := State.length_resume_lt failed hend
            have hleads := (Composed.item hy.composed).leads_error hitem
            obtain ⟨q, hq, hqc⟩ := ih (p := ⟨_, failure :: p.failures, failed.resume _⟩)
              (hshort _ hlt) (hwithin.resume hleads)
            have hnone : commentsIn [errorNode failure] = [] := rfl
            rw [← hnone] at hacc
            exact ⟨q, hq, hqc.trans (Progress.commentsDue_step rfl hacc _)⟩

end Grammar

open Grammar
open Node (commentsIn)

/-- The comments of a tree are those of the source: none is lost, doubled or moved, whatever could
not be read. -/
theorem parse_comments {source : String} {tokens : List Token}
    (h : tokenize source = .ok tokens) (limit : Nat) :
    ((parse tokens { maxNesting := limit, recover := true }).root.preorder.filter
        fun n => n.kind = .comment) =
      (tokens.filter fun t => t.kind.isComment).map fun t =>
        .texted .comment t.text t.location [] := by
  obtain ⟨inner, rfl, hinner⟩ := (tiles_of_tokenize h).ending
  have hrest := State.ofTokens_rest (.behind ([] ++ source.toList)) limit fun t ht =>
    (hinner t ht).kind_ne
  let start := State.ofTokens (inner ++ [.endOfInput (.behind ([] ++ source.toList))]) limit
  have hwithin : start.Within Anywhere :=
    ⟨fun _ _ => trivial, trivial, by simp [start, State.ofTokens]⟩
  have hrun : ∃ q, readItems (.forTokens start.rest) true start.rest ⟨[], [], start⟩ =
      .complete q ∧ commentsIn q.nodes.reverse = Progress.commentsDue ⟨[], [], start⟩ :=
    readItems_complete (p := ⟨[], [], start⟩) (Rules.level_yields _) (Rules.level_carries _)
      le_rfl hwithin
  obtain ⟨q, hq, hcomments⟩ := hrun
  have hroot : (parse (inner ++ [.endOfInput (.behind ([] ++ source.toList))])
      { maxNesting := limit, recover := true }).root = .plain .program .start q.nodes.reverse := by
    simp only [parse, Session.next, Session.ofTokens]
    rw [hq]
  have hdue : Progress.commentsDue ⟨[], [], start⟩ = commentNodes inner := by
    simp only [Progress.commentsDue, start, hrest]
    rfl
  rw [hroot]
  calc (Node.plain .program .start q.nodes.reverse).preorder.filter (fun n => n.kind = .comment)
      = commentsIn q.nodes.reverse := by simp [Node.plain, Node.preorder, commentsIn]
    _ = commentNodes inner := by rw [hcomments, hdue]
    _ = _ := by simp [commentNodes, asComment, Token.endOfInput, Token.Kind.isComment]

/-- A comment in an item that cannot be read, and one behind it. -/
theorem parse_comments_recovered :
    tokenize "int /*a*/ =;//b" = .ok
        [⟨.keyword .intKw, "int", ⟨1, 1⟩⟩, ⟨.blockComment, "/*a*/", ⟨1, 5⟩⟩,
          ⟨.operator .assign, "=", ⟨1, 11⟩⟩, ⟨.delimiter .semicolon, ";", ⟨1, 12⟩⟩,
          ⟨.lineComment, "//b", ⟨1, 13⟩⟩, .endOfInput ⟨1, 16⟩] ∧
      ((parse [⟨.keyword .intKw, "int", ⟨1, 1⟩⟩, ⟨.blockComment, "/*a*/", ⟨1, 5⟩⟩,
          ⟨.operator .assign, "=", ⟨1, 11⟩⟩, ⟨.delimiter .semicolon, ";", ⟨1, 12⟩⟩,
          ⟨.lineComment, "//b", ⟨1, 13⟩⟩, .endOfInput ⟨1, 16⟩]
          { maxNesting := 3, recover := true }).root.preorder.filter
        fun n => n.kind = .comment) =
      [.texted .comment "/*a*/" ⟨1, 5⟩ [], .texted .comment "//b" ⟨1, 13⟩ []] := by
  have h : tokenize "int /*a*/ =;//b" = .ok _ := rfl
  exact ⟨h, parse_comments h 3⟩

end CSurvey
