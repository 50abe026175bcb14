import CSurvey.Proofs.Grammar.Agree
import CSurvey.Proofs.Grammar.Comments
import CSurvey.Proofs.Syntax.Uncommented

/-! # Tokens that make no difference

Tokens that are stepped over wherever they stand can be left out: a reader then does the same with
what is left. The two runs stand at different places of their tokens all the time, so what relates
them is that the tokens still to come are the same but for those left out. -/

namespace CSurvey.Grammar

open Node (Kind trimmed)

/-! ## Sieves -/

/-- Which tokens are left out, and what is left of the trees. -/
structure Sieve where
  /-- The kinds of the tokens that are left out. -/
  drops : Token.Kind → Bool
  /-- What is left of a node among other nodes. -/
  trim : Node → Option Node
  /-- Whether directive lines may be read, where newlines count. -/
  lines : Bool
  trivia : ∀ kind, drops kind = true → kind.isComment = true ∨ kind = .newline ∧ lines = false
  trim_comment : ∀ t : Token, t.kind.isComment = true →
    trim (asComment t) = if drops t.kind then none else some (asComment t)
  trim_part : ∀ n : Node, n.kind ≠ .comment →
    trim n = some ⟨n.kind, n.value, n.children.filterMap trim, n.location⟩

/-- Comments are left out, and so are their nodes. -/
def Sieve.comments : Sieve where
  drops := Token.Kind.isComment
  trim := trimmed
  lines := true
  trivia _ h := .inl h
  trim_comment _ h := by
    rw [if_pos h]
    rfl
  trim_part n h := by rw [trimmed, if_neg h, Node.uncommented_eq]

/-- Newlines are left out where there are no directive lines. -/
def Sieve.newlines : Sieve where
  drops kind := kind = .newline
  trim := some
  lines := false
  trivia _ h := .inr ⟨of_decide_eq_true h, rfl⟩
  trim_comment t h := by
    rw [if_neg]
    intro hnewline
    rw [of_decide_eq_true hnewline] at h
    contradiction
  trim_part n _ := by
    obtain ⟨kind, value, children, location⟩ := n
    rw [List.filterMap_some]

namespace Sieve

variable (m : Sieve)

/-- Whether a token is left in. -/
def keeps (t : Token) : Bool :=
  !m.drops t.kind

/-- What is left of a node. -/
def Keeps (n n' : Node) : Prop :=
  m.trim n = some n'

/-- The second state is the first one without the tokens that are left out. -/
structure Over (s s' : State) : Prop where
  rest : s'.rest = s.rest.filter m.keeps
  stop : s'.stop = s.stop
  limit : s'.limit = s.limit
  depth : s'.depth = s.depth
  onLine : s'.onLine = s.onLine
  comments : s'.comments = s.comments.filterMap m.trim
  warnings : s'.warnings = s.warnings
  within : s.Within Anywhere
  /-- Without directive lines newlines never count. -/
  calm : m.lines = false → s.onLine = false ∧ ∀ t ∈ s.rest, t.kind.isDirective = false

end Sieve

/-! ## What is left of lists -/

theorem dropWhile_filter {α : Type} {p q : α → Bool} (h : ∀ a, q a = false → p a = true)
    (as : List α) : (as.filter q).dropWhile p = (as.dropWhile p).filter q := by
  induction as with
  | nil => rfl
  | cons a as ih =>
      cases hq : q a with
      | true =>
          rw [List.filter_cons_of_pos hq]
          cases hp : p a with
          | true => rw [List.dropWhile_cons_of_pos hp, ih, List.dropWhile_cons_of_pos hp]
          | false =>
              rw [List.dropWhile_cons_of_neg (by simp [hp]),
                List.dropWhile_cons_of_neg (by simp [hp]), List.filter_cons_of_pos hq]
      | false =>
          rw [List.filter_cons_of_neg (by simp [hq]), ih, List.dropWhile_cons_of_pos (h a hq)]

theorem takeWhile_filter {α : Type} {p q : α → Bool} (h : ∀ a, q a = false → p a = true)
    (as : List α) : (as.filter q).takeWhile p = (as.takeWhile p).filter q := by
  induction as with
  | nil => rfl
  | cons a as ih =>
      cases hq : q a with
      | true =>
          rw [List.filter_cons_of_pos hq]
          cases hp : p a with
          | true =>
              rw [List.takeWhile_cons_of_pos hp, ih, List.takeWhile_cons_of_pos hp,
                List.filter_cons_of_pos hq]
          | false =>
              rw [List.takeWhile_cons_of_neg (by simp [hp]),
                List.takeWhile_cons_of_neg (by simp [hp])]
              rfl
      | false =>
          rw [List.filter_cons_of_neg (by simp [hq]), ih, List.takeWhile_cons_of_pos (h a hq),
            List.filter_cons_of_neg (by simp [hq])]

namespace Sieve

variable {m : Sieve}

/-- The comments that are left in are what is left of all comments. -/
theorem commentNodes_filter (tokens : List Token) :
    commentNodes (tokens.filter m.keeps) = (commentNodes tokens).filterMap m.trim := by
  induction tokens with
  | nil => rfl
  | cons t ts ih =>
      have hcons : ∀ ts : List Token, commentNodes (t :: ts) =
          commentNodes [t] ++ commentNodes ts := fun ts => commentNodes_append [t] ts
      have hone : commentNodes ([t].filter m.keeps) = (commentNodes [t]).filterMap m.trim := by
        cases hc : t.kind.isComment with
        | false =>
            have hnone : commentNodes [t] = [] := by simp [commentNodes, hc]
            cases hk : m.keeps t with
            | true => rw [List.filter_cons_of_pos hk, List.filter_nil, hnone, List.filterMap_nil]
            | false =>
                rw [List.filter_cons_of_neg (by simp [hk]), List.filter_nil, hnone,
                  List.filterMap_nil]
                rfl
        | true =>
            have hself : commentNodes [t] = [asComment t] := by simp [commentNodes, hc]
            have htrim := m.trim_comment t hc
            cases hd : m.drops t.kind with
            | true =>
                rw [hd, if_pos rfl] at htrim
                rw [List.filter_cons_of_neg (by simp [keeps, hd]), hself,
                  List.filterMap_cons_none htrim]
                rfl
            | false =>
                rw [hd, if_neg Bool.false_ne_true] at htrim
                rw [List.filter_cons_of_pos (by simp [keeps, hd]), hself,
                  List.filterMap_cons_some htrim, List.filter_nil, hself]
                rfl
      rw [hcons, List.filterMap_append, ← ih, ← hone, ← commentNodes_append, ← List.filter_append,
        List.singleton_append]

/-! ## States -/

namespace Over

variable {s s' : State}

theorem isPassed (h : m.Over s s') : s'.isPassed = s.isPassed := by
  funext t
  rw [State.isPassed, State.isPassed, h.onLine]

/-- What is left out is stepped over. -/
theorem passed (h : m.Over s s') (t : Token) (ht : m.keeps t = false) : s.isPassed t = true := by
  rcases m.trivia t.kind (by simpa [keeps] using ht) with hc | ⟨hn, hlines⟩
  · simp [State.isPassed, hc]
  · simp [State.isPassed, hn, (h.calm hlines).1]

theorem upcoming (h : m.Over s s') : s'.upcoming = s.upcoming.filter m.keeps := by
  rw [State.upcoming, h.isPassed, h.rest, dropWhile_filter h.passed]
  rfl

/-- What counts is left in. -/
theorem keeps_of_upcoming (h : m.Over s s') {t : Token} {ts : List Token}
    (hup : s.upcoming = t :: ts) : m.keeps t = true := by
  cases hk : m.keeps t with
  | true => rfl
  | false =>
      have hpassed := h.passed t hk
      rw [State.isPassed_of_upcoming_cons hup] at hpassed
      contradiction

theorem drop_upcoming (h : m.Over s s') :
    s'.upcoming.drop 1 = (s.upcoming.drop 1).filter m.keeps := by
  rw [h.upcoming]
  cases hup : s.upcoming with
  | nil => rfl
  | cons t ts => rw [List.filter_cons_of_pos (h.keeps_of_upcoming hup)]; rfl

theorem front (h : m.Over s s') : s'.front = s.front := by
  rw [State.front, State.front, h.upcoming, h.stop]
  cases hup : s.upcoming with
  | nil => rfl
  | cons t ts => rw [List.filter_cons_of_pos (h.keeps_of_upcoming hup)]; rfl

theorem second (h : m.Over s s') : s'.second = s.second := by
  have hcounts := List.head?_dropWhile_not s.isPassed (s.upcoming.drop 1)
  rw [State.second, State.second, h.drop_upcoming, h.isPassed, dropWhile_filter h.passed, h.stop]
  cases hbehind : (s.upcoming.drop 1).dropWhile s.isPassed with
  | nil => rfl
  | cons t ts =>
      rw [hbehind] at hcounts
      have hkept : m.keeps t = true := by
        by_contra hk
        simp [h.passed t (by simpa using hk)] at hcounts
      rw [List.filter_cons_of_pos hkept]
      rfl

theorem passTrivia (h : m.Over s s') : m.Over s.passTrivia s'.passTrivia where
  rest := h.upcoming
  stop := h.stop
  limit := h.limit
  depth := h.depth
  onLine := h.onLine
  comments := by
    show s'.comments ++ commentNodes (s'.rest.takeWhile s'.isPassed) =
      (s.comments ++ commentNodes (s.rest.takeWhile s.isPassed)).filterMap m.trim
    rw [h.isPassed, h.rest, takeWhile_filter h.passed, commentNodes_filter, h.comments,
      List.filterMap_append]
  warnings := h.warnings
  within := h.within.passTrivia
  calm hlines := ⟨(h.calm hlines).1, fun t ht =>
    (h.calm hlines).2 t ((List.dropWhile_suffix s.isPassed).mem ht)⟩

theorem dropFront (h : m.Over s s') : m.Over s.dropFront s'.dropFront where
  rest := h.drop_upcoming
  stop := h.stop
  limit := h.limit
  depth := h.depth
  onLine := h.onLine
  comments := h.passTrivia.comments
  warnings := h.warnings
  within := h.within.dropFront
  calm hlines := ⟨(h.calm hlines).1, fun t ht =>
    (h.passTrivia.calm hlines).2 t (List.mem_of_mem_drop ht)⟩

theorem atDepth (h : m.Over s s') (depth : Nat) :
    m.Over { s with depth } { s' with depth } where
  rest := h.rest
  stop := h.stop
  limit := h.limit
  depth := rfl
  onLine := h.onLine
  comments := h.comments
  warnings := h.warnings
  within := ⟨h.within.rest, h.within.stop, h.within.comments⟩
  calm := h.calm

theorem setLine (h : m.Over s s') (onLine : Bool) (hlines : m.lines = true) :
    m.Over { s with onLine } { s' with onLine } where
  rest := h.rest
  stop := h.stop
  limit := h.limit
  depth := h.depth
  onLine := rfl
  comments := h.comments
  warnings := h.warnings
  within := ⟨h.within.rest, h.within.stop, h.within.comments⟩
  calm hnone := by
    rw [hlines] at hnone
    contradiction

/-- Without directive lines no directive comes next. -/
theorem isDirective_front (h : m.Over s s') (hlines : m.lines = false) :
    s.front.kind.isDirective = false := by
  have hcalm := (h.passTrivia.calm hlines).2
  rw [State.front]
  cases hup : s.upcoming with
  | nil => rfl
  | cons t ts => exact hcalm t (by simp [State.passTrivia, hup])

end Over

/-! ## Runs -/

/-- Two runs come to results that are related, or to the same failure; or one of them gives up. -/
inductive Agree (m : Sieve) {α : Type} (R : α → α → Prop) :
    EStateM.Result Failure State α → EStateM.Result Failure State α → Prop where
  | ok {a a' : α} {s s' : State} : R a a' → m.Over s s' → Agree m R (.ok a s) (.ok a' s')
  | error {e : Failure} {s s' : State} : m.Over s s' → Agree m R (.error e s) (.error e s')
  | givesUp {x x' : EStateM.Result Failure State α} : RunsOut x ∨ RunsOut x' → Agree m R x x'

/-- From states of which one is the other without what is left out, the readers come to results
that are related. -/
def Sifts (m : Sieve) {α : Type} (R : α → α → Prop) (p p' : Parse α) : Prop :=
  ∀ ⦃s s' : State⦄, m.Over s s' → m.Agree R (p s) (p' s')

/-- What has given up has given up whatever follows. -/
theorem runsOut_bind {α β : Type} {x : EStateM.Result Failure State α} (f : α → Parse β)
    (h : RunsOut x) : RunsOut (match x with | .ok a t => f a t | .error e t => .error e t) := by
  cases x with
  | ok a t => exact h.elim
  | error e t => exact h

theorem runsOut_state {α : Type} {x : EStateM.Result Failure State α} (f : State → State)
    (h : RunsOut x) :
    RunsOut (match x with | .ok a t => .ok a (f t) | .error e t => .error e (f t)) := by
  cases x with
  | ok a t => exact h
  | error e t => exact h

/-- To go one level deeper and come back is to go deeper and then set the depth back. -/
theorem oneDeeper_apply {α : Type} (p : Parse α) (s : State) :
    oneDeeper p s =
      match (goDeeper >>= fun _ => p) s with
      | .ok a t => .ok a { t with depth := s.depth }
      | .error e t => .error e { t with depth := s.depth } := by
  rw [bind_apply]
  by_cases h : s.depth < s.limit
  · cases hp : p { s with depth := s.depth + 1 } with
    | ok a t => simp only [oneDeeper, goDeeper, if_pos h, hp]
    | error e t => simp only [oneDeeper, goDeeper, if_pos h, hp]
  · simp only [oneDeeper, goDeeper, if_neg h]

/-- Both runs ask for another round, or both are done. -/
inductive BothTurn {α : Type} (R : α → α → Prop) : Turn α → Turn α → Prop where
  | again {a a' : α} : R a a' → BothTurn R (.again a) (.again a')
  | done {a a' : α} : R a a' → BothTurn R (.done a) (.done a')

namespace Sifts

variable {α β : Type} {R : α → α → Prop} {S : β → β → Prop}

theorem pure {a a' : α} (h : R a a') : m.Sifts R (pure a) (pure a') :=
  fun _ _ hover => .ok h hover

theorem mono {Q : α → α → Prop} {p p' : Parse α} (hp : m.Sifts Q p p')
    (h : ∀ a a', Q a a' → R a a') : m.Sifts R p p' := by
  intro s s' hover
  have hagree := hp hover
  generalize p s = x at hagree ⊢
  generalize p' s' = x' at hagree ⊢
  cases hagree with
  | ok ha hover' => exact .ok (h _ _ ha) hover'
  | error hover' => exact .error hover'
  | givesUp hout => exact .givesUp hout

theorem bind {p p' : Parse α} {f f' : α → Parse β} (hp : m.Sifts R p p')
    (hf : ∀ a a', R a a' → m.Sifts S (f a) (f' a')) : m.Sifts S (p >>= f) (p' >>= f') := by
  intro s s' hover
  have hagree := hp hover
  rw [bind_apply, bind_apply]
  generalize p s = x at hagree ⊢
  generalize p' s' = x' at hagree ⊢
  cases hagree with
  | ok ha hover' => exact hf _ _ ha hover'
  | error hover' => exact .error hover'
  | givesUp hout => exact .givesUp (hout.imp (runsOut_bind f) (runsOut_bind f'))

theorem ite {c : Prop} [Decidable c] {p p' q q' : Parse α} (hp : c → m.Sifts R p p')
    (hq : ¬c → m.Sifts R q q') :
    m.Sifts R (if c then p else q) (if c then p' else q') := by
  split
  · exact hp ‹c›
  · exact hq ‹¬c›

theorem look (f : Token → Token → α) :
    m.Sifts Eq (fun s => .ok (f s.front s.second) s) fun s => .ok (f s.front s.second) s := by
  intro s s' hover
  show m.Agree Eq (.ok (f s.front s.second) s) (.ok (f s'.front s'.second) s')
  rw [hover.front, hover.second]
  exact .ok rfl hover

theorem stop (f : Token → Failure) :
    m.Sifts R (fun s => .error (f s.front) s) fun s => .error (f s.front) s := by
  intro s s' hover
  show m.Agree R (.error (f s.front) s) (.error (f s'.front) s')
  rw [hover.front]
  exact .error hover

theorem takeFront : m.Sifts Eq takeFront takeFront :=
  fun _ _ hover => .ok hover.front.symm hover.dropFront

theorem note (w : SkippedMember) : m.Sifts Eq (note w) (note w) := by
  intro s s' hover
  exact .ok rfl ⟨hover.rest, hover.stop, hover.limit, hover.depth, hover.onLine, hover.comments,
    congrArg (· ++ [w]) hover.warnings,
    ⟨hover.within.rest, hover.within.stop, hover.within.comments⟩, hover.calm⟩

theorem goDeeper : m.Sifts Eq goDeeper goDeeper := by
  intro s s' hover
  unfold Grammar.goDeeper
  by_cases h : s.depth < s.limit
  · rw [if_pos h, if_pos (by rwa [hover.depth, hover.limit]), hover.depth]
    exact .ok rfl (hover.atDepth _)
  · rw [if_neg h, if_neg (by rwa [hover.depth, hover.limit]), hover.limit, hover.front]
    exact .error hover

theorem oneDeeper {p p' : Parse α} (hp : m.Sifts R p p') :
    m.Sifts R (oneDeeper p) (oneDeeper p') := by
  intro s s' hover
  have hagree := (goDeeper.bind fun _ _ _ => hp) hover
  rw [oneDeeper_apply, oneDeeper_apply, hover.depth]
  generalize (Grammar.goDeeper >>= fun _ => p) s = x at hagree ⊢
  generalize (Grammar.goDeeper >>= fun _ => p') s' = x' at hagree ⊢
  cases hagree with
  | ok ha hover' => exact .ok ha (hover'.atDepth _)
  | error hover' => exact .error (hover'.atDepth _)
  | givesUp hout =>
      exact .givesUp (hout.imp (runsOut_state fun t => { t with depth := s.depth })
        (runsOut_state fun t => { t with depth := s.depth }))

theorem onDirectiveLine {p p' : Parse α} (hlines : m.lines = true) (hp : m.Sifts R p p') :
    m.Sifts R (onDirectiveLine p) (onDirectiveLine p') := by
  intro s s' hover
  have hagree := hp (hover.setLine true hlines)
  unfold Grammar.onDirectiveLine
  rw [hover.onLine]
  generalize p { s with onLine := true } = x at hagree ⊢
  generalize p' { s' with onLine := true } = x' at hagree ⊢
  cases hagree with
  | ok ha hover' => exact .ok ha (hover'.setLine _ hlines)
  | error hover' => exact .error (hover'.setLine _ hlines)
  | givesUp hout =>
      exact .givesUp (hout.imp (runsOut_state fun t => { t with onLine := s.onLine })
        (runsOut_state fun t => { t with onLine := s.onLine }))

/-- Loops over related values. What is left out bounds the rounds of the first run only, so one of
the runs may give up before the other one. -/
theorem rounds {round round' : α → Parse (Turn α)}
    (hround : ∀ a a', R a a' → m.Sifts (BothTurn R) (round a) (round' a'))
    (fuel fuel' : List Token) {a a' : α} (ha : R a a') :
    m.Sifts R (rounds round fuel a) (rounds round' fuel' a') := by
  induction fuel generalizing fuel' a a' with
  | nil =>
      cases fuel' with
      | nil =>
          refine bind (hround a a' ha) fun _ _ hturn => ?_
          cases hturn with
          | done hb => exact pure hb
          | again hb => exact fun _ _ _ => .givesUp (.inl rfl)
      | cons _ fuel' =>
          refine bind (hround a a' ha) fun _ _ hturn => ?_
          cases hturn with
          | done hb => exact pure hb
          | again hb => exact fun _ _ _ => .givesUp (.inl rfl)
  | cons _ fuel ih =>
      cases fuel' with
      | nil =>
          refine bind (hround a a' ha) fun _ _ hturn => ?_
          cases hturn with
          | done hb => exact pure hb
          | again hb => exact fun _ _ _ => .givesUp (.inr rfl)
      | cons _ fuel' =>
          refine bind (hround a a' ha) fun _ _ hturn => ?_
          cases hturn with
          | done hb => exact pure hb
          | again hb => exact ih fuel' hb

theorem loop {round round' : α → Parse (Turn α)}
    (hround : ∀ a a', R a a' → m.Sifts (BothTurn R) (round a) (round' a')) {a a' : α}
    (ha : R a a') : m.Sifts R (loop round a) (loop round' a') :=
  fun s s' hover => rounds hround s.rest s'.rest ha hover

theorem takeComments :
    m.Sifts (fun ns ns' => ns' = ns.filterMap m.trim) takeComments takeComments := by
  intro s s' hover
  have hpass := hover.passTrivia
  exact .ok hpass.comments ⟨hpass.rest, hpass.stop, hpass.limit, hpass.depth, hpass.onLine, rfl,
    hpass.warnings, ⟨hpass.within.rest, hpass.within.stop, by simp⟩, hpass.calm⟩

/-- A result of the first run is as such results are. -/
theorem yields {Q : α → Prop} {p p' : Parse α} (hp : m.Sifts R p p')
    (hy : Yields Anywhere p Q) : m.Sifts (fun a a' => R a a' ∧ Q a) p p' := by
  intro s s' hover
  have hagree := hp hover
  have hresult : ∀ a t, p s = .ok a t → Q a := fun a t ha => (hy hover.within ha).2
  generalize p s = x at hagree hresult ⊢
  generalize p' s' = x' at hagree ⊢
  cases hagree with
  | ok ha hover' => exact .ok ⟨ha, hresult _ _ rfl⟩ hover'
  | error hover' => exact .error hover'
  | givesUp hout => exact .givesUp hout

end Sifts

end Sieve

/-- A reader that collects no comments comes to the same. -/
theorem Composed.sifts {m : Sieve} {lines : Bool} {α : Type} {p : Parse α}
    (hp : Composed false lines p) (hlines : lines = true → m.lines = true) : m.Sifts Eq p p := by
  induction hp with
  | pure a =>
      exact .pure rfl
  | bind _ _ ihp ihf =>
      refine .bind ihp fun a a' ha => ?_
      obtain rfl := ha
      exact ihf a
  | look f =>
      exact .look f
  | stop f =>
      exact .stop f
  | takeFront =>
      exact .takeFront
  | note w =>
      exact .note w
  | goDeeper =>
      exact .goDeeper
  | oneDeeper _ ih =>
      exact .oneDeeper ih
  | onDirectiveLine h _ ih =>
      exact .onDirectiveLine (hlines h) ih
  | loop _ ih =>
      refine .loop (fun a a' ha => ?_) rfl
      obtain rfl := ha
      refine (ih a).mono fun turn turn' hturn => ?_
      obtain rfl := hturn
      cases turn with
      | again b => exact .again rfl
      | done b => exact .done rfl
  | takeComments h =>
      contradiction

end CSurvey.Grammar
