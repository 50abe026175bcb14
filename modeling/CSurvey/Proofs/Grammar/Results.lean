import CSurvey.Proofs.Grammar.Accounts
import CSurvey.Proofs.Syntax.Shape

/-! # What readers come to

A reader that succeeds gives a tree of the shape that its kind asks for, all of whose nodes stand
at places of the tokens read. -/

namespace CSurvey.Grammar

open Node (Fits Kind)

/-! ## Postconditions -/

/-- All places that a state can give to a node are known. -/
structure State.Within (s : State) (known : Position → Prop) : Prop where
  rest : ∀ t ∈ s.rest, known t.location
  stop : known s.stop
  comments : ∀ n ∈ s.comments, n.Fits known ∧ n.kind = .comment

/-- Wherever the reader succeeds, its result is as `Q` says. -/
def Yields (known : Position → Prop) {α : Type} (p : Parse α) (Q : α → Prop) : Prop :=
  ∀ ⦃s t : State⦄ ⦃a : α⦄, s.Within known → p s = .ok a t → t.Within known ∧ Q a

variable {known : Position → Prop}

theorem asComment_fits {t : Token} (h : known t.location) : (asComment t).Fits known :=
  .intro (by simp [Kind.admits, Kind.hasText]) h (by simp)

theorem word_fits {kind : Kind} {text : String} {location : Position} (hl : known location)
    (ha : kind.admits (some (.text text)) [] = true) :
    (Node.texted kind text location []).Fits known :=
  .intro ha hl (by simp)

namespace State.Within

variable {s : State}

theorem passTrivia (h : s.Within known) : s.passTrivia.Within known where
  rest t ht := h.rest t ((List.dropWhile_suffix s.isPassed).mem ht)
  stop := h.stop
  comments n hn := by
    rcases List.mem_append.mp hn with hn | hn
    · exact h.comments n hn
    · obtain ⟨t, ht, rfl⟩ := List.mem_map.mp hn
      have htok := (List.takeWhile_prefix s.isPassed).mem (List.mem_filter.mp ht).1
      exact ⟨asComment_fits (h.rest t htok), rfl⟩

theorem dropFront (h : s.Within known) : s.dropFront.Within known where
  rest t ht := h.passTrivia.rest t (List.mem_of_mem_drop ht)
  stop := h.stop
  comments := h.passTrivia.comments

theorem front (h : s.Within known) : known s.front.location := by
  have htokens := h.passTrivia.rest
  unfold State.front
  cases hu : s.upcoming with
  | nil => exact h.stop
  | cons t ts => exact htokens t (by simp [State.passTrivia, hu])

end State.Within

namespace Yields

theorem pure {α : Type} {a : α} {Q : α → Prop} (h : Q a) : Yields known (pure a) Q := by
  intro s t b hs hb
  obtain ⟨rfl, rfl⟩ := pure_eq_ok.mp hb
  exact ⟨hs, h⟩

theorem bind {α β : Type} {p : Parse α} {f : α → Parse β} {P : α → Prop} {Q : β → Prop}
    (hp : Yields known p P) (hf : ∀ a, P a → Yields known (f a) Q) :
    Yields known (p >>= f) Q := by
  intro s t b hs hb
  obtain ⟨a, u, ha, hb⟩ := bind_eq_ok.mp hb
  obtain ⟨hu, hPa⟩ := hp hs ha
  exact hf a hPa hu hb

theorem mono {α : Type} {p : Parse α} {P Q : α → Prop} (hp : Yields known p P)
    (h : ∀ a, P a → Q a) : Yields known p Q := by
  intro s t a hs ha
  exact ⟨(hp hs ha).1, h a (hp hs ha).2⟩

theorem ite {α : Type} {c : Prop} [Decidable c] {p q : Parse α} {Q : α → Prop}
    (hp : c → Yields known p Q) (hq : ¬c → Yields known q Q) :
    Yields known (if c then p else q) Q := by
  split
  · exact hp ‹c›
  · exact hq ‹¬c›

/-- A reader that only looks leaves the state as it is. -/
theorem look {α : Type} {f : State → α} {Q : α → Prop}
    (h : ∀ s : State, s.Within known → Q (f s)) :
    Yields known (fun s => .ok (f s) s) Q := by
  intro s t a hs ha
  obtain ⟨rfl, rfl⟩ := EStateM.Result.ok.inj ha
  exact ⟨hs, h s hs⟩

theorem stop {α : Type} {f : State → Failure} {Q : α → Prop} :
    Yields known (fun s => .error (f s) s) Q := by
  intro s t a hs ha
  simp at ha

theorem oneDeeper {α : Type} {p : Parse α} {Q : α → Prop} (hp : Yields known p Q) :
    Yields known (oneDeeper p) Q := by
  intro s t a hs ha
  obtain ⟨-, u, hu, rfl⟩ := oneDeeper_eq_ok.mp ha
  have hdeep : State.Within { s with depth := s.depth + 1 } known :=
    ⟨hs.rest, hs.stop, hs.comments⟩
  obtain ⟨hwithin, hQ⟩ := hp hdeep hu
  exact ⟨⟨hwithin.rest, hwithin.stop, hwithin.comments⟩, hQ⟩

theorem onDirectiveLine {α : Type} {p : Parse α} {Q : α → Prop} (hp : Yields known p Q) :
    Yields known (onDirectiveLine p) Q := by
  intro s t a hs ha
  obtain ⟨u, hu, rfl⟩ := onDirectiveLine_eq_ok.mp ha
  have hline : State.Within { s with onLine := true } known :=
    ⟨hs.rest, hs.stop, hs.comments⟩
  obtain ⟨hwithin, hQ⟩ := hp hline hu
  exact ⟨⟨hwithin.rest, hwithin.stop, hwithin.comments⟩, hQ⟩

/-- What the value of a loop is before and after every round. -/
theorem loop {α : Type} {round : α → Parse (Turn α)} {I D : α → Prop} {value : α}
    (hround : ∀ a, I a → Yields known (round a) fun
      | .again b => I b
      | .done b => D b)
    (h : I value) : Yields known (loop round value) D := by
  intro s t a hs ha
  refine loop_ok (I := fun b u => u.Within known ∧ I b) (D := fun b u => u.Within known ∧ D b)
    ?_ ⟨hs, h⟩ ha
  intro b u turn v hu hv
  have hturn := hround b hu.2 hu.1 hv
  cases turn with
  | again _ => exact hturn
  | done _ => exact hturn

/-! ## Single steps -/

theorem front : Yields known front fun t => known t.location :=
  .look fun _ h => h.front

theorem frontKind : Yields known frontKind fun _ => True :=
  .look fun _ _ => trivial

theorem secondKind : Yields known secondKind fun _ => True :=
  .look fun _ _ => trivial

theorem here : Yields known here known :=
  .look fun _ h => h.front

theorem takeFront : Yields known takeFront fun t => known t.location := by
  intro s t a hs ha
  obtain ⟨rfl, rfl⟩ := EStateM.Result.ok.inj ha
  exact ⟨hs.dropFront, hs.front⟩

theorem goDeeper : Yields known goDeeper fun _ => True := by
  intro s t a hs ha
  unfold Grammar.goDeeper at ha
  split at ha
  · obtain ⟨-, rfl⟩ := EStateM.Result.ok.inj ha
    exact ⟨⟨hs.rest, hs.stop, hs.comments⟩, trivial⟩
  · simp at ha

theorem note (w : SkippedMember) : Yields known (note w) fun _ => True := by
  intro s t a hs ha
  obtain ⟨-, rfl⟩ := EStateM.Result.ok.inj ha
  exact ⟨⟨hs.rest, hs.stop, hs.comments⟩, trivial⟩

theorem accept (kind : Token.Kind) : Yields known (accept kind) fun _ => True :=
  .bind .frontKind fun _ _ => .ite
    (fun _ => .bind .takeFront fun _ _ => .pure trivial) (fun _ => .pure trivial)

theorem require (kind : Token.Kind) (place : Place) :
    Yields known (require kind place) fun t => known t.location :=
  .bind .frontKind fun _ _ => .ite (fun _ => .takeFront) (fun _ => .stop)

theorem requireMark (mark : Token.Delimiter) (place : Place) :
    Yields known (requireMark mark place) fun t => known t.location :=
  .require _ _

theorem commaSeparated {α : Type} {p : Parse α} {Q : α → Prop} (hp : Yields known p Q) :
    Yields known (commaSeparated p) fun found => ∀ a ∈ found, Q a := by
  refine .bind (P := fun found => ∀ a ∈ found, Q a)
    (.loop (I := fun found => ∀ a ∈ found, Q a) ?_ (by simp))
    fun found h => .pure (by simpa using h)
  intro found h
  refine .bind hp fun next hnext => .bind (.accept _) fun _ _ => .ite (fun _ => ?_) (fun _ => ?_)
  · exact .pure (by simpa [hnext] using h)
  · exact .pure (by simpa [hnext] using h)

end Yields

/-- Every reader keeps to known places. -/
theorem Composed.yields {α : Type} {p : Parse α} (hp : Composed true true p) :
    Yields known p fun _ => True := by
  induction hp with
  | pure _ =>
      exact .pure trivial
  | bind _ _ ihp ihf =>
      exact .bind ihp fun a _ => ihf a
  | look _ =>
      exact .look fun _ _ => trivial
  | stop _ =>
      exact .stop
  | takeFront =>
      exact Yields.takeFront.mono fun _ _ => trivial
  | note w =>
      exact .note w
  | goDeeper =>
      exact .goDeeper
  | oneDeeper _ ih =>
      exact .oneDeeper ih
  | onDirectiveLine _ _ ih =>
      exact .onDirectiveLine ih
  | loop _ ih =>
      refine .loop (I := fun _ => True) (fun a _ => (ih a).mono fun turn _ => ?_) trivial
      cases turn <;> trivial
  | takeComments _ =>
      intro s t a hs ha
      obtain ⟨rfl, rfl⟩ := EStateM.Result.ok.inj ha
      exact ⟨⟨hs.passTrivia.rest, hs.stop, by simp⟩, trivial⟩

/-! ## Results of the rules -/

/-- A tree of some class of kinds. -/
def IsOf (known : Position → Prop) (kinds : Kind → Bool) (n : Node) : Prop :=
  n.Fits known ∧ kinds n.kind = true

/-- What the rules for quiet constructs come to. -/
structure Rules.Yields (known : Position → Prop) (r : Rules) : Prop where
  composed : r.Composed
  expression : Grammar.Yields known r.expression (IsOf known Kind.isTerm)
  conditional : Grammar.Yields known r.conditional (IsOf known Kind.isTerm)
  unary : Grammar.Yields known r.unary (IsOf known Kind.isTerm)
  initializer : Grammar.Yields known r.initializer (IsOf known Kind.isExpression)
  structSpecifier : Grammar.Yields known r.structSpecifier
    (IsOf known fun k => k = .structDefinition || k = .structDeclaration)

namespace IsOf

variable {kinds kinds' : Kind → Bool} {n : Node}

theorem mono (h : IsOf known kinds n) (hk : ∀ k, kinds k = true → kinds' k = true) :
    IsOf known kinds' n :=
  ⟨h.1, hk _ h.2⟩

theorem texted {kind : Kind} {text : String} {location : Position} {children : List Node}
    (hk : kinds kind = true) (hl : known location) (hc : ∀ c ∈ children, c.Fits known)
    (ha : kind.admits (some (.text text)) (children.map Node.kind) = true) :
    IsOf known kinds (.texted kind text location children) :=
  ⟨.intro ha hl hc, hk⟩

theorem plain {kind : Kind} {location : Position} {children : List Node}
    (hk : kinds kind = true) (hl : known location) (hc : ∀ c ∈ children, c.Fits known)
    (ha : kind.admits none (children.map Node.kind) = true) :
    IsOf known kinds (.plain kind location children) :=
  ⟨.intro ha hl hc, hk⟩

theorem absent {location : Position} (hk : kinds .empty = true) (hl : known location) :
    IsOf known kinds (.absent location) :=
  .plain hk hl (by simp) rfl

end IsOf

namespace Yields

variable {r : Rules}

/-! ## Types and declarators -/

theorem typeSpecifier (h : r.Yields known) :
    Yields known (typeSpecifier r) fun type => ∀ n ∈ type.structNode,
      IsOf known (fun k => k = .structDefinition || k = .structDeclaration) n := by
  refine .bind Composed.typeModifiers.yields fun _ _ => .bind .frontKind fun _ _ => ?_
  refine .ite (fun _ => ?_) fun _ => .ite (fun _ => ?_) fun _ => .ite (fun _ => .stop) fun _ => ?_
  · exact .bind .takeFront fun _ _ => .pure (by simp)
  · exact .bind h.structSpecifier fun n hn => .pure (by simpa using hn)
  · exact .pure (by simp)

theorem arraySize (h : r.Yields known) :
    Yields known (arraySize r) (IsOf known Kind.isOptionalTerm) := by
  refine .bind .takeFront fun bracket hb => .bind (.accept _) fun _ _ =>
    .ite (fun _ => .pure (.absent rfl hb)) fun _ => ?_
  refine .bind h.expression fun size hsize => .bind (.requireMark _ _) fun _ _ => .pure ?_
  exact hsize.mono fun k hk => by simp [Kind.isOptionalTerm, hk]

theorem arraySizes (h : r.Yields known) :
    Yields known (arraySizes r) fun sizes => ∀ n ∈ sizes, IsOf known Kind.isOptionalTerm n := by
  refine .bind (P := fun sizes => ∀ n ∈ sizes, IsOf known Kind.isOptionalTerm n)
    (.loop (I := fun sizes => ∀ n ∈ sizes, IsOf known Kind.isOptionalTerm n) ?_ (by simp))
    fun sizes hsizes => .pure (by simpa using hsizes)
  intro sizes hsizes
  refine .bind .frontKind fun _ _ => .ite (fun _ => ?_) fun _ => .pure hsizes
  exact .bind (.arraySize h) fun size hsize => .pure (by simpa [hsize] using hsizes)

/-- At most one name. -/
theorem parameterName : Yields known parameterName fun names =>
    (∀ n ∈ names, n.Fits known) ∧
      Kind.admits .parameter (some (.text "")) (names.map Node.kind) = true := by
  refine .bind .frontKind fun _ _ => .ite (fun _ => ?_) fun _ => .pure ⟨by simp, rfl⟩
  refine .bind .takeFront fun name hname => .pure ⟨?_, rfl⟩
  simpa using word_fits hname rfl

theorem parameter (h : r.Yields known) :
    Yields known (parameter r) (IsOf known (· = .parameter)) := by
  refine .bind .here fun location hl => .bind .frontKind fun _ _ =>
    .ite (fun _ => ?_) fun _ => .stop
  refine .bind (Composed.typeName h.composed).relax.yields fun _ _ =>
    .bind .parameterName fun names hnames => ?_
  refine .bind (Composed.parameterSizes h.composed _).relax.yields fun type _ => .pure ?_
  exact .texted rfl hl hnames.1 hnames.2

theorem parameters (h : r.Yields known) :
    Yields known (parameters r) fun found => ∀ n ∈ found, IsOf known (· = .parameter) n := by
  refine .bind (P := fun found => ∀ n ∈ found, IsOf known (· = .parameter) n)
    (.loop (I := fun found => ∀ n ∈ found, IsOf known (· = .parameter) n) ?_ (by simp))
    fun found hfound => .pure (by simpa using hfound)
  intro found hfound
  refine .bind .frontKind fun _ _ => .ite (fun _ => ?_) fun _ => ?_
  · refine .bind (P := IsOf known (· = .parameter)) ?_ fun last hlast =>
      .pure (by simpa [hlast] using hfound)
    exact .bind .here fun _ hl => .bind (.requireMark _ _) fun _ _ =>
      .bind (.requireMark _ _) fun _ _ => .bind (.requireMark _ _) fun _ _ =>
      .pure (.texted rfl hl (by simp) rfl)
  · refine .bind (.parameter h) fun next hnext => .bind (.accept _) fun _ _ =>
      .ite (fun _ => ?_) fun _ => ?_
    · exact .pure (by simpa [hnext] using hfound)
    · exact .pure (by simpa [hnext] using hfound)

theorem parameterList (h : r.Yields known) :
    Yields known (parameterList r) fun found =>
      ∀ n ∈ found, IsOf known (· = .parameter) n := by
  refine .bind .frontKind fun _ _ => .bind .secondKind fun _ _ => .ite (fun _ => ?_) fun _ =>
    .ite (fun _ => ?_) fun _ => .parameters h
  · exact .pure (by simp)
  · exact .bind .takeFront fun _ _ => .pure (by simp)

theorem declarator (h : r.Yields known) :
    Yields known (declarator r) fun d => IsOf known Kind.isDeclarator d.node := by
  refine .bind Composed.pointers.yields fun _ _ => .bind .frontKind fun _ _ =>
    .ite (fun _ => ?_) fun _ => .stop
  refine .bind .takeFront fun name hname => .bind (.accept _) fun _ _ =>
    .ite (fun _ => ?_) fun _ => ?_
  · refine .bind (.parameterList h) fun found hfound => .bind (.requireMark _ _) fun _ _ =>
      .pure (.texted rfl hname (fun n hn => (hfound n hn).1) ?_)
    simpa [Kind.admits, Kind.hasText] using fun n hn => of_decide_eq_true (hfound n hn).2
  · refine .bind (.arraySizes h) fun sizes hsizes =>
      .pure (.texted rfl hname (fun n hn => (hsizes n hn).1) ?_)
    simpa [Kind.admits, Kind.hasText] using fun n hn => (hsizes n hn).2

theorem structMembers (h : r.Yields known) :
    Yields known (structMembers r) fun found =>
      ∀ n ∈ found, IsOf known (· = .structMember) n := by
  refine .bind .here fun location hl => .bind (.typeSpecifier h) fun type _ =>
    .bind (.commaSeparated (.declarator h)) fun declared hdeclared =>
    .bind (.requireMark _ _) fun _ _ => .pure ?_
  intro n hn
  obtain ⟨d, hd, rfl⟩ := List.mem_map.mp hn
  have hnode := hdeclared d hd
  exact .texted rfl hl (by simpa using hnode.1)
    (by simpa [Kind.admits, Kind.hasText] using hnode.2)

theorem structBody (h : r.Yields known) (tag : String) :
    Yields known (structBody r tag) fun members =>
      ∀ n ∈ members, IsOf known (· = .structMember) n := by
  refine .bind (P := fun body => ∀ n ∈ body.members, IsOf known (· = .structMember) n)
    (.loop (I := fun body => ∀ n ∈ body.members, IsOf known (· = .structMember) n) ?_ (by simp))
    fun body hbody => .bind (Composed.reportPassed _ _).yields fun _ _ =>
      .pure (by simpa using hbody)
  intro body hbody
  refine .bind .frontKind fun _ _ => .ite (fun _ => .pure hbody) fun _ =>
    .ite (fun _ => .stop) fun _ => .ite (fun _ => ?_) fun _ => .ite (fun _ => ?_) fun _ => ?_
  · refine .bind (Composed.reportPassed _ _).yields fun _ _ =>
      .bind (.structMembers h) fun found hfound => .pure ?_
    intro n hn
    rcases List.mem_append.mp hn with hn | hn
    · exact hfound n (List.mem_reverse.mp hn)
    · exact hbody n hn
  · exact .bind (Composed.passBraces _).yields fun _ _ => .pure hbody
  · exact .bind .takeFront fun _ _ => .pure hbody

theorem structSpecifier (h : r.Yields known) :
    Yields known (structSpecifier r)
      (IsOf known fun k => k = .structDefinition || k = .structDeclaration) := by
  refine .bind .takeFront fun keyword hk => .bind .frontKind fun _ _ =>
    .ite (fun _ => ?_) fun _ => .stop
  refine .bind .takeFront fun tag _ => .bind (.accept _) fun _ _ => .ite (fun _ => ?_) fun _ => ?_
  · refine .bind (.structBody h _) fun members hmembers => .bind (.requireMark _ _) fun _ _ =>
      .pure (.texted rfl hk (fun n hn => (hmembers n hn).1) ?_)
    simpa [Kind.admits, Kind.hasText] using fun n hn => of_decide_eq_true (hmembers n hn).2
  · exact .pure (.texted rfl hk (by simp) rfl)

/-! ## Expressions -/

theorem primary (h : r.Yields known) : Yields known (primary r) (IsOf known Kind.isTerm) := by
  refine .bind .front fun token hl => ?_
  split
  · refine .bind .takeFront fun _ _ => ?_
    split
    · exact .pure ⟨.intro rfl hl (by simp), rfl⟩
    · exact .stop
  · exact .bind .takeFront fun _ _ => .bind (Composed.moreStrings _).yields fun _ _ =>
      .pure (.texted rfl hl (by simp) rfl)
  · exact .bind .takeFront fun _ _ => .pure (.texted rfl hl (by simp) rfl)
  · exact .bind .takeFront fun _ _ => .pure (.texted rfl hl (by simp) rfl)
  · exact .bind .takeFront fun _ _ => .bind h.expression fun _ hinner =>
      .bind (.requireMark _ _) fun _ _ => .pure hinner
  · exact .stop

theorem arguments (h : r.Yields known) :
    Yields known (arguments r) fun given => ∀ n ∈ given, IsOf known Kind.isTerm n :=
  .bind .frontKind fun _ _ => .ite (fun _ => .pure (by simp)) fun _ =>
    .commaSeparated h.expression

theorem memberOf {kind : Kind} {operand : Node} (hk : kind = .member ∨ kind = .pointerMember)
    (ho : IsOf known Kind.isTerm operand) :
    Yields known (memberOf kind operand) (IsOf known Kind.isTerm) := by
  refine .bind .takeFront fun op hop => .bind (.require _ _) fun name hname => .pure ?_
  have hfits : (Node.texted .identifier name.text name.location []).Fits known :=
    word_fits hname rfl
  rcases hk with rfl | rfl
  · exact .texted rfl hop (by simp [ho.1, hfits])
      (by simp [Kind.admits, Kind.hasText, ho.2, Node.texted])
  · exact .texted rfl hop (by simp [ho.1, hfits])
      (by simp [Kind.admits, Kind.hasText, ho.2, Node.texted])

theorem continued (h : r.Yields known) {operand : Node} (ho : IsOf known Kind.isTerm operand) :
    Yields known (continued r operand) (IsOf known Kind.isTerm) := by
  refine .bind .frontKind fun kind _ => ?_
  split
  · refine .bind .takeFront fun _ hb => .bind h.expression fun index hi =>
      .bind (.requireMark _ _) fun _ _ => .pure (.texted rfl hb (by simp [ho.1, hi.1]) ?_)
    simp [Kind.admits, Kind.hasText, ho.2, hi.2]
  · refine .bind .takeFront fun _ hp => .bind (.arguments h) fun given hg =>
      .bind (.requireMark _ _) fun _ _ => .pure (.texted rfl hp ?_ ?_)
    · simpa [ho.1] using fun n hn => (hg n hn).1
    · simpa [Kind.admits, Kind.hasText, ho.2] using fun n hn => (hg n hn).2
  · exact .memberOf (.inl rfl) ho
  · exact .memberOf (.inr rfl) ho
  · refine .bind .takeFront fun _ hop => .pure (.texted rfl hop (by simp [ho.1]) ?_)
    simp [Kind.admits, Kind.hasText, ho.2]

theorem operand (h : r.Yields known) : Yields known (operand r) (IsOf known Kind.isTerm) := by
  refine .bind (.primary h) fun first hfirst => .loop (fun inner hinner => ?_) hfirst
  refine .bind .frontKind fun _ _ => .ite (fun _ => ?_) fun _ => .pure hinner
  exact .bind .goDeeper fun _ _ => .bind (.continued h hinner) fun _ hlonger => .pure hlonger

theorem sizeOf (h : r.Yields known) : Yields known (sizeOf r) (IsOf known Kind.isTerm) := by
  refine .bind .takeFront fun keyword hk => .bind Composed.typeInParens.yields fun _ _ =>
    .ite (fun _ => ?_) fun _ => ?_
  · exact .bind .takeFront fun _ _ => .bind (Composed.typeName h.composed).relax.yields fun _ _ =>
      .bind (.requireMark _ _) fun _ _ => .pure (.texted rfl hk (by simp) rfl)
  · refine .bind (.oneDeeper h.unary) fun inner hi =>
      .pure (.plain rfl hk (by simp [hi.1]) ?_)
    simp [Kind.admits, hi.2]

theorem cast (h : r.Yields known) : Yields known (cast r) (IsOf known Kind.isTerm) := by
  refine .bind .takeFront fun paren hp =>
    .bind (Composed.typeName h.composed).relax.yields fun _ _ =>
    .bind (.requireMark _ _) fun _ _ => .bind (.oneDeeper h.unary) fun inner hi =>
    .pure (.texted rfl hp (by simp [hi.1]) ?_)
  simp [Kind.admits, Kind.hasText, hi.2]

theorem unary (h : r.Yields known) : Yields known (unary r) (IsOf known Kind.isTerm) := by
  refine .bind .frontKind fun kind _ => ?_
  split
  · refine .ite (fun _ => ?_) fun _ => .ite (fun _ => ?_) fun _ => .operand h
    · refine .bind .takeFront fun op hop => .bind (.oneDeeper h.unary) fun inner hi =>
        .pure (.texted rfl hop (by simp [hi.1]) ?_)
      simp [Kind.admits, Kind.hasText, hi.2]
    · refine .bind .takeFront fun op hop => .bind (.operand h) fun inner hi =>
        .pure (.texted rfl hop (by simp [hi.1]) ?_)
      simp [Kind.admits, Kind.hasText, hi.2]
  · exact .sizeOf h
  · exact .bind Composed.typeInParens.yields fun _ _ =>
      .ite (fun _ => .cast h) fun _ => .operand h

theorem chain (level : Nat) {operand : Parse Node}
    (h : Yields known operand (IsOf known Kind.isTerm)) :
    Yields known (chain level operand) (IsOf known Kind.isTerm) := by
  refine .bind h fun first hfirst => .loop (fun left hleft => ?_) hfirst
  refine .bind .frontKind fun _ _ => .ite (fun _ => ?_) fun _ => .pure hleft
  refine .bind .goDeeper fun _ _ => .bind .takeFront fun op hop => .bind h fun right hright =>
    .pure (.texted rfl hop (by simp [hleft.1, hright.1]) ?_)
  simp [Kind.admits, Kind.hasText, hleft.2, hright.2]

theorem binary (h : r.Yields known) (level : Nat) :
    Yields known (binary r level) (IsOf known Kind.isTerm) := by
  induction level with
  | zero => exact .unary h
  | succ level ih => exact .chain _ ih

theorem conditional (h : r.Yields known) :
    Yields known (conditional r) (IsOf known Kind.isTerm) := by
  refine .bind (.binary h 10) fun test ht => .bind .frontKind fun _ _ =>
    .ite (fun _ => ?_) fun _ => .pure ht
  refine .bind .takeFront fun op hop => .bind h.expression fun yes hy =>
    .bind (.requireMark _ _) fun _ _ => .bind (.oneDeeper h.conditional) fun no hn =>
    .pure (.texted rfl hop (by simp [ht.1, hy.1, hn.1]) ?_)
  simp [Kind.admits, Kind.hasText, ht.2, hy.2, hn.2]

theorem expression (h : r.Yields known) :
    Yields known (expression r) (IsOf known Kind.isTerm) := by
  refine .oneDeeper <| .bind (.conditional h) fun target ht => .bind .frontKind fun _ _ =>
    .ite (fun _ => ?_) fun _ => .pure ht
  refine .bind .takeFront fun op hop => .bind h.expression fun value hv =>
    .pure (.texted rfl hop (by simp [ht.1, hv.1]) ?_)
  simp [Kind.admits, Kind.hasText, ht.2, hv.2]

theorem initializer (h : r.Yields known) :
    Yields known (initializer r) (IsOf known Kind.isExpression) := by
  refine .bind .frontKind fun _ _ => .ite (fun _ => ?_) fun _ =>
    h.expression.mono fun n hn => hn.mono fun k hk => Kind.isExpression_of_isTerm hk
  refine .bind .takeFront fun brace hb => .bind
    (P := fun items => ∀ n ∈ items, IsOf known Kind.isExpression n)
    (.loop (I := fun items => ∀ n ∈ items, IsOf known Kind.isExpression n) ?_ (by simp))
    fun items hitems => .bind (.requireMark _ _) fun _ _ => .pure (.plain rfl hb ?_ ?_)
  · intro items hitems
    refine .bind .frontKind fun _ _ => .ite (fun _ => .pure hitems) fun _ => ?_
    refine .bind (.oneDeeper h.initializer) fun item hitem => .bind (.accept _) fun _ _ =>
      .ite (fun _ => ?_) fun _ => ?_
    · exact .pure (by simpa [hitem] using hitems)
    · exact .pure (by simpa [hitem] using hitems)
  · simpa using fun n hn => (hitems n hn).1
  · simpa [Kind.admits] using fun n hn => (hitems n hn).2

/-! ## Directive lines -/

theorem inclusion : Yields known inclusion (IsOf known Kind.isDirective) := by
  refine .bind .takeFront fun marker hm => .bind (.onDirectiveLine (Q := fun _ => True) ?_)
    fun _ _ => .pure (.texted rfl hm (by simp) rfl)
  exact .bind Composed.inclusionTarget.yields fun _ _ => .bind Composed.lineTexts.yields
    fun _ _ => .pure trivial

theorem macroValue (h : r.Yields known) :
    Yields known (macroValue r) fun value => (∀ n ∈ value, n.Fits known) ∧
      Kind.admits .macroDefinition (some (.text "")) (value.map Node.kind) = true := by
  refine .bind .frontKind fun kind _ => .ite (fun _ => ?_) fun _ => .ite (fun _ => ?_) fun _ => ?_
  · refine .bind h.expression fun value hv => .pure ⟨by simpa using hv.1, ?_⟩
    simp [Kind.admits, Kind.hasText, Kind.isMacroValue, hv.2]
  · exact .pure ⟨by simp, rfl⟩
  · refine .bind .here fun location hl => .bind Composed.lineTexts.yields fun _ _ =>
      .pure ⟨?_, rfl⟩
    simpa using word_fits hl rfl

theorem macroDefinition (h : r.Yields known) :
    Yields known (macroDefinition r) (IsOf known Kind.isDirective) := by
  refine .bind .takeFront fun marker hm => .onDirectiveLine <|
    .bind (.require _ _) fun name _ => .bind (.macroValue h) fun value hv =>
    .bind Composed.lineTexts.yields fun _ _ => .pure (.texted rfl hm hv.1 hv.2)

theorem otherDirective : Yields known otherDirective (IsOf known Kind.isDirective) :=
  .bind .here fun _ hl => .bind (.onDirectiveLine Composed.lineTexts.yields) fun _ _ =>
    .pure (.texted rfl hl (by simp) rfl)

/-! ## Declared names and statements -/

theorem declared (h : r.Yields known) {location : Position} (hl : known location) (type : String)
    {d : Declarator} (hd : IsOf known Kind.isDeclarator d.node) {body : Option Node}
    (hb : ∀ n ∈ body, IsOf known (· = .structDefinition) n) :
    Yields known (declared r location type d body)
      (IsOf known fun k => k = .functionDeclaration || k = .variableDeclaration) := by
  have hfits : ∀ n ∈ body.toList, n.Fits known := fun n hn => (hb n (by simpa using hn)).1
  have hkinds : body.toList.map Node.kind = [] ∨
      body.toList.map Node.kind = [.structDefinition] := by
    cases body with
    | none => simp
    | some n => simpa using (hb n rfl).2
  refine .ite (fun hf => ?_) fun hf => ?_
  · have hk : d.node.kind = .functionDeclarator := of_decide_eq_true hf
    refine .pure (.texted rfl hl (by simpa [hd.1] using hfits) ?_)
    rcases hkinds with hb | hb
    · simp [Kind.admits, Kind.hasText, hk, hb]
    · simp [Kind.admits, Kind.hasText, hk, hb]
  · have hk : d.node.kind = .variableDeclarator := by
      have hnot : d.node.kind ≠ .functionDeclarator := by
        simpa [Declarator.declaresFunction] using hf
      exact Kind.eq_variableDeclarator _ hd.2 hnot
    refine .bind (.accept _) fun _ _ => .ite (fun _ => ?_) fun _ => ?_
    · refine .bind (.initializer h) fun value hv => .pure
        (.texted rfl hl (by simpa [hd.1, hv.1] using hfits) ?_)
      rcases hkinds with hb | hb
      · simp [Kind.admits, Kind.hasText, hk, hb, hv.2]
      · simp [Kind.admits, Kind.hasText, hk, hb, hv.2]
    · refine .pure (.texted rfl hl (by simpa [hd.1] using hfits) ?_)
      rcases hkinds with hb | hb
      · simp [Kind.admits, Kind.hasText, hk, hb]
      · simp [Kind.admits, Kind.hasText, hk, hb]

theorem condition (h : r.Yields known) (word : String) (place : Place) :
    Yields known (condition r word place) (IsOf known Kind.isTerm) :=
  .bind (.requireMark _ _) fun _ _ => .bind h.expression fun _ hv =>
    .bind (.requireMark _ _) fun _ _ => .pure hv

theorem optionalBefore (h : r.Yields known) (mark : Token.Delimiter) :
    Yields known (optionalBefore r mark) (IsOf known Kind.isOptionalTerm) :=
  .bind .frontKind fun _ _ => .ite
    (fun _ => .bind .here fun _ hl => .pure (.absent rfl hl))
    fun _ => h.expression.mono fun _ hv => hv.mono fun k hk => by simp [Kind.isOptionalTerm, hk]

theorem caseLabel (h : r.Yields known) :
    Yields known (caseLabel r) (IsOf known (· = .caseLabel)) := by
  refine .bind .takeFront fun _ hk => .bind h.expression fun _ hv =>
    .bind (.requireMark _ _) fun _ _ => .pure (.texted rfl hk (by simp [hv.1]) ?_)
  simp [Kind.admits, Kind.hasText, hv.2]

theorem defaultLabel : Yields known defaultLabel (IsOf known (· = .defaultLabel)) :=
  .bind .takeFront fun _ hk => .bind (.requireMark _ _) fun _ _ =>
    .pure (.texted rfl hk (by simp) rfl)

theorem label : Yields known label (IsOf known (· = .label)) :=
  .bind .takeFront fun _ hk => .bind (.requireMark _ _) fun _ _ =>
    .pure (.texted rfl hk (by simp) rfl)

theorem returnStatement (h : r.Yields known) :
    Yields known (returnStatement r) (IsOf known (· = .returnStatement)) := by
  refine .bind .takeFront fun _ hk => .bind .frontKind fun _ _ =>
    .ite (fun _ => ?_) fun _ => ?_
  · exact .bind (.requireMark _ _) fun _ _ => .pure (.texted rfl hk (by simp) rfl)
  · refine .bind h.expression fun _ hv => .bind (.requireMark _ _) fun _ _ =>
      .pure (.texted rfl hk (by simp [hv.1]) ?_)
    simp [Kind.admits, Kind.hasText, hv.2]

theorem jump {kind : Kind} (word : String)
    (ha : kind.admits (some (.text word)) [] = true) :
    Yields known (jump kind word) (IsOf known (· = kind)) :=
  .bind .takeFront fun _ hk => .bind (.requireMark _ _) fun _ _ =>
    .pure (.texted (by simp) hk (by simp) ha)

theorem gotoStatement : Yields known gotoStatement (IsOf known (· = .gotoStatement)) :=
  .bind .takeFront fun _ hk => .bind (.require _ _) fun _ _ => .bind (.requireMark _ _)
    fun _ _ => .pure (.texted rfl hk (by simp) rfl)

theorem expressionStatement (h : r.Yields known) :
    Yields known (expressionStatement r) (IsOf known (· = .expressionStatement)) := by
  refine .bind .here fun _ hl => .bind h.expression fun _ hv => .bind (.requireMark _ _)
    fun _ _ => .pure (.plain rfl hl (by simp [hv.1]) ?_)
  simp [Kind.admits, hv.2]

end Yields

/-- The rules of the grammar come to trees of the right shape, at any number of levels. -/
theorem Rules.level_yields (levels : Nat) : (Rules.level levels).Yields known := by
  induction levels with
  | zero =>
      exact ⟨Rules.level_composed 0, .stop, .stop, .stop, .stop, .stop⟩
  | succ levels ih =>
      exact ⟨Rules.level_composed _, .expression ih, .conditional ih, .unary ih, .initializer ih,
        .structSpecifier ih⟩

end CSurvey.Grammar
