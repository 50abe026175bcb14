import Mathlib.Data.List.Forall2
import CSurvey.Proofs.Grammar.Joining
import CSurvey.Proofs.Grammar.Sieve

/-! # Comments and newlines make no difference

A file without its comments is read like the file with them, but for the nodes of the comments; a
file without directive lines is read in the same way with and without its newlines. -/

namespace CSurvey.Grammar

open Node (Kind)

attribute [ext] Parsed

/-! ## Parts of trees -/

namespace Sieve

variable {m : Sieve} {kinds : Kind → Bool} {n n' : Node} {ns ns' : List Node}

theorem filterMap_of_forall₂ (h : List.Forall₂ m.Keeps ns ns') : ns.filterMap m.trim = ns' := by
  induction h with
  | nil => rfl
  | cons hn _ ih => rw [List.filterMap_cons_some hn, ih]

theorem isEmpty_of_forall₂ (h : List.Forall₂ m.Keeps ns ns') : ns'.isEmpty = ns.isEmpty := by
  cases h with
  | nil => rfl
  | cons _ _ => rfl

/-- A node is left with what is left of its children. -/
theorem Keeps.holding {kind : Kind} {value : Option Node.Value} {location : Position}
    (hk : kind ≠ .comment) (h : ns.filterMap m.trim = ns') :
    m.Keeps ⟨kind, value, ns, location⟩ ⟨kind, value, ns', location⟩ := by
  rw [Keeps, m.trim_part _ hk, h]

theorem Keeps.part {kind : Kind} {value : Option Node.Value} {location : Position}
    (hk : kind ≠ .comment) (h : List.Forall₂ m.Keeps ns ns') :
    m.Keeps ⟨kind, value, ns, location⟩ ⟨kind, value, ns', location⟩ :=
  .holding hk (filterMap_of_forall₂ h)

/-- A tree without comments is left as it is. -/
theorem Keeps.quiet (h : IsOf Anywhere kinds n) (hk : ∀ k, kinds k = true → k.isQuiet = true) :
    m.Keeps n n := by
  obtain ⟨hfits, hkind⟩ := h.mono hk
  clear h hk
  induction hfits with
  | @intro kind value children location hadmits _ _ ih =>
      have hchildren : ∀ c ∈ children, m.Keeps c c := fun c hc =>
        ih c hc (Kind.isQuiet_of_admits hkind hadmits c.kind (List.mem_map_of_mem hc))
      refine .part ?_ (List.forall₂_same.mpr hchildren)
      rintro rfl
      contradiction

theorem forall₂_quiet (h : ∀ n ∈ ns, IsOf Anywhere kinds n)
    (hk : ∀ k, kinds k = true → k.isQuiet = true) : List.Forall₂ m.Keeps ns ns :=
  List.forall₂_same.mpr fun n hn => .quiet (h n hn) hk

theorem Keeps.asSingle (location : Position) (h : List.Forall₂ m.Keeps ns ns') :
    m.Keeps (asSingle location ns) (asSingle location ns') := by
  cases h with
  | nil => exact .part (by decide) .nil
  | cons hn hns =>
      cases hns with
      | nil => exact hn
      | cons hn' hns => exact .part (by decide) (.cons hn (.cons hn' hns))

namespace Sifts

variable {α β : Type} {R : α → α → Prop} {S : β → β → Prop} {r : Rules}

/-! ## Parts that collect no comments -/

/-- A part of whose result nothing need be known. -/
theorem bindPlain {p : Parse α} {f f' : α → Parse β} (hc : Composed false false p)
    (hf : ∀ a, m.Sifts S (f a) (f' a)) : m.Sifts S (p >>= f) (p >>= f') := by
  refine bind (hc.sifts (by simp)) fun a a' ha => ?_
  obtain rfl := ha
  exact hf a

/-- A part of whose result something is known. -/
theorem bindQuiet {p : Parse α} {f f' : α → Parse β} {Q : α → Prop}
    (hc : Composed false false p) (hy : Yields Anywhere p Q)
    (hf : ∀ a, Q a → m.Sifts S (f a) (f' a)) : m.Sifts S (p >>= f) (p >>= f') := by
  refine bind ((hc.sifts (by simp)).yields hy) fun a a' ha => ?_
  obtain ⟨rfl, hQ⟩ := ha
  exact hf a hQ

/-- The kind of the next token is that of a directive only where directive lines may be read. -/
theorem bindKind {f f' : Token.Kind → Parse β}
    (hf : ∀ kind, (kind.isDirective = true → m.lines = true) → m.Sifts S (f kind) (f' kind)) :
    m.Sifts S (frontKind >>= f) (frontKind >>= f') := by
  intro s s' hover
  show m.Agree S (f s.front.kind s) (f' s'.front.kind s')
  rw [hover.front]
  refine hf _ (fun hdirective => ?_) hover
  cases hlines : m.lines with
  | true => rfl
  | false =>
      rw [hover.isDirective_front hlines] at hdirective
      contradiction

/-! ## Declarations -/

/-- Two runs come to trees of which one is what is left of the other. -/
abbrev Trees (m : Sieve) (p p' : Parse (List Node)) : Prop :=
  m.Sifts (List.Forall₂ m.Keeps) p p'

theorem block (h : Trees m r.statement r.statement) : m.Sifts m.Keeps (block r) (block r) := by
  refine bindPlain (.requireMark _ _) fun brace => ?_
  refine bind (loop (R := fun found found' => found' = found.filterMap m.trim)
    (fun found found' hfound => ?_) rfl) fun found found' hfound =>
    bindPlain (.requireMark _ _) fun _ => pure (.holding (by decide) ?_)
  · refine bind takeComments fun comments comments' hcomments => bindPlain .frontKind fun kind => ?_
    split
    · exact pure (.done (by simp [hfound, hcomments, List.filterMap_reverse]))
    · exact stop fun t => ⟨.openBlock, t.location⟩
    · refine bind h fun nodes nodes' hnodes => pure (.again ?_)
      rw [← filterMap_of_forall₂ hnodes]
      simp [hfound, hcomments, List.filterMap_reverse]
  · rw [hfound, List.filterMap_reverse]

theorem declaredNames (hy : r.Yields Anywhere) (h : Trees m r.statement r.statement)
    {type : TypeSpecifier} {body : Option Node}
    (hbody : ∀ n ∈ body, IsOf Anywhere (· = .structDefinition) n) (location : Position) :
    m.Sifts (fun names names' => names'.closed = names.closed ∧
      List.Forall₂ m.Keeps names.nodes names'.nodes)
      (declaredNames r location type body) (declaredNames r location type body) := by
  refine loop (fun names names' hnames => ?_) ⟨rfl, .nil⟩
  dsimp only
  rw [isEmpty_of_forall₂ hnames.2]
  have hb : ∀ n ∈ (if names.nodes.isEmpty then body else none),
      IsOf Anywhere (· = .structDefinition) n := by
    split
    · exact hbody
    · simp
  have hstruct : List.Forall₂ m.Keeps (if names.nodes.isEmpty then body else none).toList
      (if names.nodes.isEmpty then body else none).toList :=
    forall₂_quiet (fun n hn => hb n (by simpa using hn)) (by decide)
  refine bindQuiet (.declarator hy.composed) (.declarator hy) fun d hd =>
    bindPlain .frontKind fun kind => ite (fun _ => ?_) fun _ => ?_
  · have hdeclarator := Keeps.quiet (m := m) hd Kind.isQuiet_of_isDeclarator
    refine bind (block h) fun code code' hcode => pure (.done ⟨rfl, .cons ?_ hnames.2⟩)
    exact .part (by decide) (.cons hdeclarator (.cons hcode hstruct))
  · refine bindQuiet (.declared hy.composed _ _ _ _) (.declared hy trivial _ hd hb)
      fun node hnode => bindPlain (.accept _) fun _ => ?_
    have hquiet := Keeps.quiet (m := m) hnode (by decide)
    exact ite (fun _ => pure (.again ⟨rfl, .cons hquiet hnames.2⟩))
      fun _ => pure (.done ⟨rfl, .cons hquiet hnames.2⟩)

theorem declaration (hy : r.Yields Anywhere) (h : Trees m r.statement r.statement) :
    Trees m (declaration r) (declaration r) := by
  refine bindPlain .here fun location =>
    bindQuiet (.typeSpecifier hy.composed) (.typeSpecifier hy) fun type htype =>
    bindPlain (.accept _) fun _ => ite (fun _ => pure ?_) fun _ => ?_
  · exact forall₂_quiet (fun n hn => htype n (by simpa using hn)) (by decide)
  · refine bind (declaredNames hy h ?_ _) fun names names' hnames => ?_
    · intro n hn
      have hn := Option.filter_eq_some_iff.mp hn
      exact ⟨(htype n hn.1).1, hn.2⟩
    · rw [hnames.1]
      have hnodes := List.rel_reverse hnames.2
      exact ite (fun _ => pure hnodes) fun _ => bindPlain (.requireMark _ _) fun _ => pure hnodes

/-! ## Statements -/

/-- The only node of a statement. -/
theorem one {p : Parse Node} (h : m.Sifts m.Keeps p p) : Trees m (one p) (one p) :=
  bind h fun _ _ hn => pure (.cons hn .nil)

/-- A statement whose only node has no comments. -/
theorem oneQuiet {p : Parse Node} (hc : Composed false false p)
    (hp : Yields Anywhere p (IsOf Anywhere kinds))
    (hk : ∀ k, kinds k = true → k.isQuiet = true) : Trees m (Grammar.one p) (Grammar.one p) :=
  bindQuiet hc hp fun _ hn => pure (.cons (.quiet hn hk) .nil)

/-- A directive line, where these may be read. -/
theorem oneLine {p : Parse Node} (hlines : m.lines = true) (hc : Composed false true p)
    (hp : Yields Anywhere p (IsOf Anywhere kinds))
    (hk : ∀ k, kinds k = true → k.isQuiet = true) : Trees m (Grammar.one p) (Grammar.one p) := by
  refine bind ((hc.sifts fun _ => hlines).yields hp) fun n n' hn => ?_
  obtain ⟨rfl, hn⟩ := hn
  exact pure (.cons (.quiet hn hk) .nil)

theorem singleStatement (h : Trees m r.statement r.statement) :
    m.Sifts m.Keeps (singleStatement r) (singleStatement r) :=
  bindPlain .here fun location => bind h fun _ _ hnodes => pure (.asSingle location hnodes)

theorem ifStatement (hy : r.Yields Anywhere) (h : Trees m r.statement r.statement) :
    m.Sifts m.Keeps (ifStatement r) (ifStatement r) := by
  refine bindPlain .takeFront fun keyword => bindQuiet (.condition hy.composed _ _)
    (.condition hy _ _) fun test ht => bind (singleStatement h) fun yes yes' hyes =>
    bindPlain (.accept _) fun _ => ite (fun _ => ?_) fun _ => pure ?_
  · have htest := Keeps.quiet (m := m) ht Kind.isQuiet_of_isTerm
    exact bind (singleStatement h) fun no no' hno =>
      pure (.part (by decide) (.cons htest (.cons hyes (.cons hno .nil))))
  · have htest := Keeps.quiet (m := m) ht Kind.isQuiet_of_isTerm
    exact .part (by decide) (.cons htest (.cons hyes .nil))

theorem forStart (hy : r.Yields Anywhere) (h : Trees m r.statement r.statement) :
    m.Sifts m.Keeps (forStart r) (forStart r) := by
  refine bindPlain .here fun location => bindPlain (.accept _) fun _ =>
    ite (fun _ => pure (.part (by decide) .nil)) fun _ => bindPlain .frontKind fun _ =>
    ite (fun _ => ?_) fun _ => ?_
  · refine bind (declaration hy h) fun nodes nodes' hnodes => ?_
    cases hnodes with
    | nil => exact pure (.part (by decide) .nil)
    | cons hn hns =>
        cases hns with
        | nil => exact pure hn
        | cons hn' hns => exact pure (.part (by decide) (.cons hn (.cons hn' hns)))
  · exact bindQuiet hy.composed.expression hy.expression fun value hv =>
      bindPlain (.requireMark _ _) fun _ => pure (.quiet hv Kind.isQuiet_of_isTerm)

theorem forStatement (hy : r.Yields Anywhere) (h : Trees m r.statement r.statement) :
    m.Sifts m.Keeps (forStatement r) (forStatement r) := by
  refine bindPlain .takeFront fun keyword => bindPlain (.requireMark _ _) fun _ =>
    bind (forStart hy h) fun start start' hstart =>
    bindQuiet (.optionalBefore hy.composed _) (.optionalBefore hy _) fun test ht =>
    bindPlain (.requireMark _ _) fun _ =>
    bindQuiet (.optionalBefore hy.composed _) (.optionalBefore hy _) fun step hs =>
    bindPlain (.requireMark _ _) fun _ => bind (singleStatement h) fun body body' hbody =>
    pure ?_
  have htest := Keeps.quiet (m := m) ht Kind.isQuiet_of_isOptionalTerm
  have hstep := Keeps.quiet (m := m) hs Kind.isQuiet_of_isOptionalTerm
  exact .part (by decide) (.cons hstart (.cons htest (.cons hstep (.cons hbody .nil))))

theorem whileStatement (hy : r.Yields Anywhere) (h : Trees m r.statement r.statement) :
    m.Sifts m.Keeps (whileStatement r) (whileStatement r) := by
  refine bindPlain .takeFront fun keyword => bindQuiet (.condition hy.composed _ _)
    (.condition hy _ _) fun test ht => bind (singleStatement h) fun body body' hbody => pure ?_
  have htest := Keeps.quiet (m := m) ht Kind.isQuiet_of_isTerm
  exact .part (by decide) (.cons htest (.cons hbody .nil))

theorem doWhileStatement (hy : r.Yields Anywhere) (h : Trees m r.statement r.statement) :
    m.Sifts m.Keeps (doWhileStatement r) (doWhileStatement r) := by
  refine bindPlain .takeFront fun keyword => bind (singleStatement h) fun body body' hbody =>
    bindPlain (.require _ _) fun _ => bindQuiet (.condition hy.composed _ _)
    (.condition hy _ _) fun test ht => bindPlain (.requireMark _ _) fun _ => pure ?_
  have htest := Keeps.quiet (m := m) ht Kind.isQuiet_of_isTerm
  exact .part (by decide) (.cons hbody (.cons htest .nil))

theorem switchStatement (hy : r.Yields Anywhere) (h : Trees m r.statement r.statement) :
    m.Sifts m.Keeps (switchStatement r) (switchStatement r) := by
  refine bindPlain .takeFront fun keyword => bindQuiet (.condition hy.composed _ _)
    (.condition hy _ _) fun value hv => bind (singleStatement h) fun body body' hbody => pure ?_
  have hvalue := Keeps.quiet (m := m) hv Kind.isQuiet_of_isTerm
  exact .part (by decide) (.cons hvalue (.cons hbody .nil))

theorem openStatement (hy : r.Yields Anywhere) (h : Trees m r.statement r.statement)
    (kind : Token.Kind) : Trees m (openStatement r kind) (openStatement r kind) :=
  bindPlain .labelAhead fun _ => ite (fun _ => oneQuiet .label .label (by decide)) fun _ =>
    ite (fun _ => declaration hy h) fun _ =>
    ite (fun _ => oneQuiet (.expressionStatement hy.composed) (.expressionStatement hy)
      (by decide)) fun _ =>
    ite (fun _ => stop fun t => ⟨.statementExpected t, t.location⟩) fun _ =>
    bindPlain .takeFront fun _ => pure .nil

theorem statementOf (hy : r.Yields Anywhere) (h : Trees m r.statement r.statement)
    (kind : Token.Kind) (hlines : kind.isDirective = true → m.lines = true) :
    Trees m (statementOf r kind) (statementOf r kind) := by
  unfold Grammar.statementOf
  split
  · exact one (ifStatement hy h)
  · exact one (forStatement hy h)
  · exact one (whileStatement hy h)
  · exact one (doWhileStatement hy h)
  · exact one (switchStatement hy h)
  · exact oneQuiet (.caseLabel hy.composed) (.caseLabel hy) (by decide)
  · exact oneQuiet .defaultLabel .defaultLabel (by decide)
  · exact oneQuiet (.returnStatement hy.composed) (.returnStatement hy) (by decide)
  · exact oneQuiet (.jump _ _) (.jump _ rfl) (by decide)
  · exact oneQuiet (.jump _ _) (.jump _ rfl) (by decide)
  · exact oneQuiet .gotoStatement .gotoStatement (by decide)
  · exact one (block h)
  · exact oneLine (hlines rfl) .inclusion .inclusion (by decide)
  · exact oneLine (hlines rfl) (.macroDefinition hy.composed) (.macroDefinition hy) (by decide)
  · exact oneLine (hlines rfl) .otherDirective .otherDirective (by decide)
  · exact openStatement hy h _

theorem statement (hy : r.Yields Anywhere) (h : Trees m r.statement r.statement) :
    Trees m (statement r) (statement r) :=
  oneDeeper <| bindKind fun kind hlines => statementOf hy h kind hlines

/-! ## Items -/

theorem item (hy : r.Yields Anywhere) (h : Trees m r.statement r.statement) :
    Trees m (item r) (item r) :=
  bindKind fun kind hlines =>
    ite (fun hk => oneLine (hlines (by rw [hk]; rfl)) .inclusion .inclusion (by decide)) fun _ =>
    ite (fun hk => oneLine (hlines (by rw [hk]; rfl)) (.macroDefinition hy.composed)
      (.macroDefinition hy) (by decide)) fun _ =>
    ite (fun hk => oneLine (hlines hk) .otherDirective .otherDirective (by decide)) fun _ =>
    ite (fun _ => declaration hy h) fun _ => bindPlain .takeFront fun _ => pure .nil

end Sifts

end Sieve

/-- Items come to what is left of them, at any number of levels. -/
theorem Rules.level_sifts (m : Sieve) (levels : Nat) :
    Sieve.Sifts.Trees m (Rules.level levels).statement (Rules.level levels).statement := by
  induction levels with
  | zero => exact .stop fun t => ⟨.exhausted, t.location⟩
  | succ levels ih => exact .statement (Rules.level_yields levels) ih

/-! ## Files -/

namespace Sieve

variable {m : Sieve} {s s' failed failed' : State} {p p' : Progress}

/-- Behind a failed item trivia is passed over, but for the newline that ends a line. -/
theorem behindItem_trivia {isLine first : Bool} {t : Token} (ts : List Token) (braces : Nat)
    (ht : t.kind.isComment = true ∨ t.kind = .newline ∧ isLine = false) :
    behindItem isLine first braces (t :: ts) =
      (commentNodes [t] ++ (behindItem isLine false braces ts).1,
        (behindItem isLine false braces ts).2) := by
  conv => lhs; unfold behindItem
  rcases ht with hc | ⟨hn, hline⟩
  · have hnewline : t.kind ≠ .newline := by
      intro hn
      rw [hn] at hc
      contradiction
    simp [hnewline, hc, commentNodes]
  · simp [hn, hline, Token.Kind.isComment, commentNodes]

/-- Where the reading goes on behind a failed item does not depend on what is left out. -/
theorem behindItem_filter {isLine first : Bool} (hline : isLine = true → m.lines = true)
    {tokens : List Token} (hfirst : first = true → ∀ t ∈ tokens.head?, m.keeps t = true)
    (braces : Nat) :
    behindItem isLine first braces (tokens.filter m.keeps) =
      ((behindItem isLine first braces tokens).1.filterMap m.trim,
        (behindItem isLine first braces tokens).2.filter m.keeps) := by
  induction tokens generalizing first braces with
  | nil => rfl
  | cons t ts ih =>
      have hgoOn : ∀ braces, behindItem isLine false braces (ts.filter m.keeps) =
          ((behindItem isLine false braces ts).1.filterMap m.trim,
            (behindItem isLine false braces ts).2.filter m.keeps) := fun braces =>
        ih (by simp) braces
      cases hk : m.keeps t with
      | true =>
          have hself : (t :: ts).filter m.keeps = t :: ts.filter m.keeps :=
            List.filter_cons_of_pos hk
          rw [hself]
          unfold behindItem
          simp only [hgoOn]
          split
          · rw [← hself]
            rfl
          · split
            · rename_i hc
              have htrim := m.trim_comment t hc
              rw [if_neg (by simpa [keeps] using hk)] at htrim
              rw [List.filterMap_cons_some htrim]
            · split
              · rfl
              · split
                · rfl
                · rfl
              · split
                · rfl
                · rfl
              · split
                · rw [← hself]
                  rfl
                · rfl
              · rfl
      | false =>
          obtain rfl : first = false := by
            by_contra hne
            rw [hfirst (by simpa using hne) t rfl] at hk
            contradiction
          have hnone : (commentNodes [t]).filterMap m.trim = [] := by
            rw [← commentNodes_filter, List.filter_cons_of_neg (by simp [hk])]
            rfl
          have htrivia : t.kind.isComment = true ∨ t.kind = .newline ∧ isLine = false := by
            rcases m.trivia t.kind (by simpa [keeps] using hk) with hcomment | ⟨hnewline, hlines⟩
            · exact .inl hcomment
            · exact .inr ⟨hnewline, Bool.eq_false_iff.mpr fun h => by simp [hline h] at hlines⟩
          rw [List.filter_cons_of_neg (by simp [hk]), hgoOn, behindItem_trivia ts braces htrivia,
            List.filterMap_append, hnone, List.nil_append]

theorem Over.head_rest (h : m.Over s s') (hs : s.Settled) :
    ∀ t ∈ s.rest.head?, m.keeps t = true := by
  intro t ht
  obtain ⟨ts, hrest⟩ := List.head?_eq_some_iff.mp (Option.mem_def.mp ht)
  exact h.keeps_of_upcoming (hs.trans hrest)

theorem Over.rest_eq_nil (h : m.Over s s') (hs : s.Settled) : s'.rest = [] ↔ s.rest = [] := by
  have hhead := h.head_rest hs
  rw [h.rest]
  cases hrest : s.rest with
  | nil => simp
  | cons t ts =>
      rw [List.filter_cons_of_pos (hhead t (by rw [hrest]; rfl))]
      simp

theorem Over.resume (hfailed : m.Over failed failed') (h : m.Over s s') (hs : s.Settled)
    (hleads : s.Leads failed) : m.Over (failed.resume s.rest) (failed'.resume s'.rest) := by
  let isLine (start : List Token) := (start.head?.map fun t => t.kind.isDirective).getD false
  have hhead : s'.rest.head? = s.rest.head? := by
    have hkept := h.head_rest hs
    rw [h.rest]
    cases hrest : s.rest with
    | nil => rfl
    | cons t ts => rw [List.filter_cons_of_pos (hkept t (by rw [hrest]; rfl))]; rfl
  have hline : isLine s'.rest = isLine s.rest := by
    show (s'.rest.head?.map _).getD false = (s.rest.head?.map _).getD false
    rw [hhead]
  have hlines : isLine s.rest = true → m.lines = true := by
    intro hdirective
    by_contra hne
    have hnone := (h.calm (by simpa using hne)).2
    cases hrest : s.rest with
    | nil => simp [isLine, hrest] at hdirective
    | cons t ts => simp [isLine, hrest, hnone t (by rw [hrest]; exact List.mem_cons_self ..)]
        at hdirective
  have hfirst : true = true → ∀ t ∈ s.rest.head?, m.keeps t = true := fun _ => h.head_rest hs
  have hbehind := behindItem_filter hlines hfirst 0
  rw [← h.rest, ← hline] at hbehind
  obtain ⟨passed, hpassed, -⟩ := skips_behindItem (isLine s.rest) true 0 s.rest
  exact {
    rest := by
      show (behindItem (isLine s'.rest) true 0 s'.rest).2 = _
      rw [hbehind, hline]
      rfl
    stop := hfailed.stop
    limit := hfailed.limit
    depth := rfl
    onLine := rfl
    comments := by
      show (behindItem (isLine s'.rest) true 0 s'.rest).1 = _
      rw [hbehind, hline]
      rfl
    warnings := hfailed.warnings
    within := h.within.resume hleads
    calm := fun hnone => ⟨rfl, fun t ht => (h.calm hnone).2 t (by
      rw [hpassed]
      exact List.mem_append_right _ ht)⟩ }

/-- The second progress is the first one without what is left out. -/
structure Reached (m : Sieve) (p p' : Progress) : Prop where
  state : m.Over p.state p'.state
  nodes : p'.nodes = p.nodes.filterMap m.trim
  failures : p'.failures = p.failures

theorem Reached.flush (h : m.Reached p p') : m.Reached p.flush p'.flush where
  state := by
    have hpass := h.state.passTrivia
    exact ⟨hpass.rest, hpass.stop, hpass.limit, hpass.depth, hpass.onLine, rfl, hpass.warnings,
      ⟨hpass.within.rest, hpass.within.stop, by simp [Progress.flush]⟩, hpass.calm⟩
  nodes := by
    show p'.state.passTrivia.comments.reverse ++ p'.nodes =
      (p.state.passTrivia.comments.reverse ++ p.nodes).filterMap m.trim
    rw [h.state.passTrivia.comments, h.nodes, List.filterMap_append, List.filterMap_reverse]
  failures := h.failures

/-- How two readings end of which one is the other without what is left out. -/
inductive Ends (m : Sieve) : Ending → Ending → Prop where
  | complete {p p' : Progress} : m.Reached p p' → Ends m (.complete p) (.complete p')
  | stopped {e : Failure} {s s' : State} : m.Over s s' → Ends m (.stopped e s) (.stopped e s')

theorem readOn_sifts {recover : Bool} {levels : Nat} (h : m.Reached p p')
    (hlevels : p.state.rest.length < levels) :
    m.Ends (readOn (.level levels) recover p) (readOn (.level levels) recover p') := by
  have hr := Rules.level_composed levels
  induction hn : p.state.rest.length using Nat.strong_induction_on generalizing p p' with
  | _ n ih =>
      subst hn
      have hflush := h.flush
      by_cases hend : p.flush.state.rest = []
      · have hend' := (hflush.state.rest_eq_nil p.settled_flush).mpr hend
        rw [readOn_end hend, readOn_end hend']
        exact .complete hflush
      · have hend' := mt (hflush.state.rest_eq_nil p.settled_flush).mp hend
        have hagree := Sifts.item (Rules.level_yields levels) (Rules.level_sifts m levels)
          hflush.state
        have hroom : p.flush.state.rest.length < levels :=
          Nat.lt_of_le_of_lt p.length_flush_le hlevels
        have hroom' : p'.flush.state.rest.length < levels := by
          rw [hflush.state.rest]
          exact Nat.lt_of_le_of_lt (List.length_filter_le _ _) hroom
        have hout := not_runsOut_item hroom
        have hout' := not_runsOut_item hroom'
        cases hitem : item (.level levels) p.flush.state with
        | ok found next =>
            have hlt := length_item_lt hr hend hitem
            rw [hitem] at hagree hout
            generalize hitem' : item (.level levels) p'.flush.state = result at hagree hout'
            cases hagree with
            | givesUp hgives => exact absurd hgives (by simp [hout, hout'])
            | @ok _ found' _ next' hfound hnext =>
                rw [readOn_ok hr hend hitem, readOn_ok hr hend' hitem']
                refine ih _ hlt ⟨hnext, ?_, hflush.failures⟩ (Nat.lt_trans hlt hlevels) rfl
                rw [List.filterMap_append, List.filterMap_reverse, filterMap_of_forall₂ hfound,
                  ← hflush.nodes]
        | error failure failed =>
            have hlt := length_resume_flush_lt failed hend
            have hleads := (Composed.item hr).leads_error hitem
            rw [hitem] at hagree hout
            generalize hitem' : item (.level levels) p'.flush.state = result at hagree hout'
            cases hagree with
            | givesUp hgives => exact absurd hgives (by simp [hout, hout'])
            | @error _ _ failed' hfailed =>
                cases recover with
                | true =>
                    rw [readOn_recovered hr hend hitem, readOn_recovered hr hend' hitem']
                    have herror : m.Keeps (errorNode failure) (errorNode failure) :=
                      .part (by decide) .nil
                    refine ih _ hlt ⟨hfailed.resume hflush.state p.settled_flush hleads, ?_, ?_⟩
                      (Nat.lt_trans hlt hlevels) rfl
                    · rw [List.filterMap_cons_some herror, hflush.nodes]
                    · exact congrArg (failure :: ·) hflush.failures
                | false =>
                    rw [readOn_stopped hr hend hitem, readOn_stopped hr hend' hitem']
                    exact .stopped hfailed

/-- What is left of the root, and the same messages. -/
theorem Ends.parsed {e e' : Ending} (h : m.Ends e e') :
    m.Keeps e.parsed.root e'.parsed.root ∧ e'.parsed.diagnostics = e.parsed.diagnostics ∧
      e'.parsed.warnings = e.parsed.warnings := by
  cases h with
  | @complete p p' h =>
      refine ⟨.holding (by decide) ?_, ?_, ?_⟩
      · rw [List.filterMap_reverse, h.nodes]
      · simp only [Ending.parsed, h.failures]
      · simp only [Ending.parsed, h.state.warnings]
  | stopped h =>
      refine ⟨.part (by decide) .nil, rfl, ?_⟩
      simp only [Ending.parsed, h.warnings]

/-- A file is parsed to what is left of it. -/
theorem parse_filter (m : Sieve) {tokens : List Token} (options : ParseSettings)
    (hends : EndsOnce tokens) (hcalm : m.lines = false → ∀ t ∈ tokens, t.kind.isDirective = false) :
    m.Keeps (parse tokens options).root (parse (tokens.filter m.keeps) options).root ∧
      (parse (tokens.filter m.keeps) options).diagnostics = (parse tokens options).diagnostics ∧
      (parse (tokens.filter m.keeps) options).warnings = (parse tokens options).warnings := by
  obtain ⟨inner, last, rfl, hlast, hinner⟩ := hends
  have hkept : m.keeps last = true := by
    by_contra hk
    rcases m.trivia last.kind (by simpa [keeps] using hk) with hc | ⟨hn, -⟩
    · rw [hlast] at hc
      contradiction
    · rw [hlast] at hn
      contradiction
  have hfilter : (inner ++ [last]).filter m.keeps = inner.filter m.keeps ++ [last] := by
    rw [List.filter_append, List.filter_cons_of_pos hkept, List.filter_nil]
  have hinner' : ∀ t ∈ inner.filter m.keeps, t.kind ≠ .endOfInput := fun t ht =>
    hinner t (List.mem_filter.mp ht).1
  have hreached : m.Reached (.ofFile inner last.location options.maxNesting)
      (.ofFile (inner.filter m.keeps) last.location options.maxNesting) :=
    ⟨⟨rfl, rfl, rfl, rfl, rfl, rfl, rfl,
      ⟨fun _ _ => trivial, trivial, by simp [Progress.ofFile]⟩,
      fun hlines => ⟨rfl, fun t ht => hcalm hlines t (List.mem_append_left _ ht)⟩⟩, rfl, rfl⟩
  -- Levels that are enough for both files.
  have hroom : inner.length < inner.length + 1 := Nat.lt_succ_self _
  have hroom' := Nat.lt_of_le_of_lt (List.length_filter_le m.keeps inner) hroom
  rw [hfilter, parse_eq_readOn hlast hinner hroom, parse_eq_readOn hlast hinner' hroom']
  exact (readOn_sifts hreached hroom).parsed

end Sieve

/-- Comments are transparent: a file without its comments is parsed to the tree of the file without
the nodes of its comments, with the same messages. -/
theorem parse_uncommented {tokens : List Token} (hends : EndsOnce tokens)
    (options : ParseSettings) :
    let bare := parse (tokens.filter fun t => !t.kind.isComment) options
    bare.root = (parse tokens options).root.uncommented ∧
      bare.diagnostics = (parse tokens options).diagnostics ∧
      bare.warnings = (parse tokens options).warnings := by
  obtain ⟨hroot, hdiagnostics, hwarnings⟩ :=
    Sieve.comments.parse_filter options hends (by simp [Sieve.comments])
  refine ⟨?_, hdiagnostics, hwarnings⟩
  change Node.trimmed _ = some _ at hroot
  unfold Node.trimmed at hroot
  split at hroot
  · contradiction
  · exact (Option.some.inj hroot).symm

theorem parse_uncommented_declaration :
    let tokens : List Token := [⟨.lineComment, "one name", ⟨1, 1⟩⟩, ⟨.newline, "\n", ⟨1, 12⟩⟩,
      ⟨.keyword .intKw, "int", ⟨2, 1⟩⟩, ⟨.identifier, "x", ⟨2, 5⟩⟩,
      ⟨.blockComment, "no value", ⟨2, 7⟩⟩, ⟨.delimiter .semicolon, ";", ⟨2, 20⟩⟩,
      .endOfInput ⟨2, 21⟩]
    let declared : Node :=
      .texted .variableDeclaration "int" ⟨2, 1⟩ [.texted .variableDeclarator "x" ⟨2, 5⟩ []]
    EndsOnce tokens ∧
      (parse tokens {}).root = .plain .program .start [.texted .comment "one name" ⟨1, 1⟩ [],
        declared, .texted .comment "no value" ⟨2, 7⟩ []] ∧
      (parse (tokens.filter fun t => !t.kind.isComment) {}).root =
        .plain .program .start [declared] := by
  intro tokens declared
  have hends : EndsOnce tokens :=
    ⟨tokens.dropLast, .endOfInput ⟨2, 21⟩, rfl, rfl, by decide⟩
  have hwhole : (parse tokens {}).root = .plain .program .start
      [.texted .comment "one name" ⟨1, 1⟩ [], declared,
        .texted .comment "no value" ⟨2, 7⟩ []] := by
    decide +kernel
  refine ⟨hends, hwhole, (parse_uncommented hends {}).1.trans ?_⟩
  rw [hwhole]
  rfl

/-- Newlines are transparent where there are no directive lines. -/
theorem parse_withoutNewlines {tokens : List Token} (hends : EndsOnce tokens)
    (hlines : ∀ t ∈ tokens, t.kind.isDirective = false) (options : ParseSettings) :
    parse (tokens.filter fun t => t.kind ≠ .newline) options = parse tokens options := by
  obtain ⟨hroot, hdiagnostics, hwarnings⟩ :=
    Sieve.newlines.parse_filter options hends fun _ => hlines
  have hfilter : tokens.filter Sieve.newlines.keeps = tokens.filter fun t => t.kind ≠ .newline := by
    congr 1
    funext t
    exact (decide_not).symm
  rw [hfilter] at hroot hdiagnostics hwarnings
  exact Parsed.ext (Option.some.inj hroot).symm hdiagnostics hwarnings

theorem parse_withoutNewlines_open :
    let tokens : List Token := [⟨.keyword .intKw, "int", ⟨1, 1⟩⟩, ⟨.newline, "\n", ⟨1, 4⟩⟩,
      ⟨.identifier, "x", ⟨2, 1⟩⟩, ⟨.newline, "\n", ⟨2, 2⟩⟩, .endOfInput ⟨3, 1⟩]
    EndsOnce tokens ∧ (∀ t ∈ tokens, t.kind.isDirective = false) ∧
      parse (tokens.filter fun t => t.kind ≠ .newline) {} = parse tokens {} ∧
      (parse tokens {}).diagnostics = ["Parse error at line 3, column 1: " ++
        "Expected ';' after declaration, found end of input"] := by
  intro tokens
  have hends : EndsOnce tokens := ⟨tokens.dropLast, .endOfInput ⟨3, 1⟩, rfl, rfl, by decide⟩
  have hlines : ∀ t ∈ tokens, t.kind.isDirective = false := by decide
  exact ⟨hends, hlines, parse_withoutNewlines hends hlines {}, by decide +kernel⟩

end CSurvey.Grammar
