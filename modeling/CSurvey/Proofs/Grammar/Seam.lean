import Mathlib.Data.List.TakeWhile
import CSurvey.Grammar.Declaration
import CSurvey.Proofs.Grammar.Accounts
import CSurvey.Proofs.Grammar.Progress
import CSurvey.Proofs.Grammar.Words
import CSurvey.Proofs.Syntax.Moved

/-! # Tokens of a longer text

The tokens of a text may stand in a longer one, at other places and with more tokens behind them. A
reader does the same there as long as it does not look behind the last of them. How far a reader
looks shows where it leaves the state: not behind the next token that counts, nor behind the end of
a line on which a directive is read. -/

namespace CSurvey.Grammar

open Moves (move)

/-! ## Results at other places -/

section

variable {f : Position → Position}

instance {α : Type} [Moves α] : Moves (Turn α) where
  move f
    | .again a => .again (move f a)
    | .done a => .done (move f a)

instance : Moves TypeSpecifier := ⟨fun f type => ⟨type.text, move f type.structNode⟩⟩

instance : Moves Declarator := ⟨fun f d => ⟨move f d.node, d.stars, d.sizes⟩⟩

instance : Moves StructBody := ⟨fun f body => ⟨move f body.members, move f body.passed⟩⟩

instance : Moves DeclaredNames := ⟨fun f names => ⟨move f names.nodes, names.closed⟩⟩

instance : Moves Cause where
  move f
    | .expected kind place found => .expected kind place (move f found)
    | .openInclusion found => .openInclusion (move f found)
    | .headerExpected found => .headerExpected (move f found)
    | .typeExpected found => .typeExpected (move f found)
    | .tagExpected found => .tagExpected (move f found)
    | .declaratorExpected found => .declaratorExpected (move f found)
    | .parameterExpected found => .parameterExpected (move f found)
    | .statementExpected found => .statementExpected (move f found)
    | .unexpected found => .unexpected (move f found)
    | cause => cause

instance : Moves Failure := ⟨fun f e => ⟨move f e.cause, f e.location⟩⟩

@[simp] theorem move_again {α : Type} [Moves α] (a : α) :
    move f (Turn.again a) = .again (move f a) := rfl

@[simp] theorem move_done {α : Type} [Moves α] (a : α) :
    move f (Turn.done a) = .done (move f a) := rfl

/-- The words for a cause do not show its place. -/
theorem Cause.message_move (c : Cause) : (move f c).message = c.message := by
  cases c <;> rfl

theorem commentNodes_move (ts : List Token) :
    commentNodes (move f ts) = move f (commentNodes ts) := by
  show ((ts.map (move f)).filter _).map asComment = ((ts.filter _).map asComment).map (move f)
  rw [List.filter_map, List.map_map, List.map_map]
  rfl

@[simp] theorem Declarator.declaresFunction_move (d : Declarator) :
    (move f d).declaresFunction = d.declaresFunction := by
  show decide ((move f d.node).kind = _) = decide (d.node.kind = _)
  rw [Node.move_kind]

@[simp] theorem Declarator.wholeType_move (d : Declarator) (base : String) :
    (move f d).wholeType base = d.wholeType base := rfl

end

/-! ## Seams -/

/-- How a text stands in a longer one: what becomes of its places, and the tokens behind its last
one, which start on the next line. -/
structure Seam where
  place : Position → Position
  tail : List Token
  newline : ∀ t ∈ tail.head?, t.kind = .newline

/-- The same state in the longer text. -/
structure Seam.Over (m : Seam) (s s' : State) : Prop where
  rest : s'.rest = move m.place s.rest ++ m.tail
  stop : m.tail = [] → s'.stop = move m.place s.stop
  limit : s'.limit = s.limit
  depth : s'.depth = s.depth
  onLine : s'.onLine = s.onLine
  comments : s'.comments = move m.place s.comments

/-- What is asked of a state if there is anything behind the last token. -/
def Seam.Clear (m : Seam) (L : State → Prop) (s : State) : Prop :=
  m.tail = [] ∨ L s

/-- What is next is a token that counts, or the end of the line at hand. -/
def State.Bounded (s : State) : Prop :=
  s.Open ∨ s.onLine = true

/-- A condition that held before if it holds now, and does not ask for the depth. -/
class Backward (L : State → Prop) : Prop where
  back {s t : State} : s.Leads t → L t → L s
  depth {s : State} {depth : Nat} : L { s with depth } → L s

instance : Backward Always := ⟨fun _ _ => trivial, fun _ => trivial⟩

theorem State.Leads.isPassed {s t : State} (h : s.Leads t) : t.isPassed = s.isPassed := by
  funext x
  simp [State.isPassed, h.onLine]

instance : Backward State.Open where
  back {s t} h ht := by
    intro hs
    have hpassed := List.dropWhile_eq_nil_iff.mp hs
    apply ht
    rw [State.upcoming, h.isPassed]
    exact List.dropWhile_eq_nil_iff.mpr fun x hx => hpassed x (h.rest.subset hx)
  depth h := h

instance : Backward State.Bounded where
  back h ht := ht.imp (Backward.back h) fun hline => h.onLine ▸ hline
  depth h := h

theorem Seam.Clear.imp {m : Seam} {L K : State → Prop} {s t : State} (h : m.Clear L s)
    (hK : L s → K t) : m.Clear K t :=
  Or.imp_right hK h

theorem Seam.Clear.back {m : Seam} {L : State → Prop} [Backward L] {s t : State} (h : m.Clear L t)
    (hst : s.Leads t) : m.Clear L s :=
  h.imp (Backward.back hst)

theorem Seam.Clear.bounded {m : Seam} {s : State} (h : m.Clear State.Open s) :
    m.Clear State.Bounded s :=
  h.imp .inl

theorem State.front_of_not_open {s : State} (h : ¬s.Open) : s.front = .endOfInput s.stop := by
  have hup : s.upcoming = [] := Decidable.not_not.mp h
  simp [State.front, hup]

namespace Seam.Over

variable {m : Seam} {s s' : State}

theorem isPassed (h : m.Over s s') (t : Token) :
    s'.isPassed (move m.place t) = s.isPassed t := by
  simp [State.isPassed, h.onLine]

theorem tail_isPassed (h : m.Over s s') (hline : s.onLine = true) :
    m.tail.dropWhile s'.isPassed = m.tail := by
  cases htail : m.tail with
  | nil => rfl
  | cons t ts =>
      have hnewline := m.newline t (by simp [htail])
      refine List.dropWhile_cons_of_neg ?_
      simp [State.isPassed, hnewline, h.onLine, hline, Token.Kind.isComment]

theorem upcoming (h : m.Over s s') (hs : m.Clear State.Bounded s) :
    s'.upcoming = move m.place s.upcoming ++ m.tail := by
  have hmap : (move m.place s.rest).dropWhile s'.isPassed = move m.place s.upcoming := by
    show (s.rest.map (move m.place)).dropWhile s'.isPassed = s.upcoming.map (move m.place)
    rw [List.dropWhile_map, show s'.isPassed ∘ move m.place = s.isPassed from funext h.isPassed]
    rfl
  rw [State.upcoming, h.rest, List.dropWhile_append, hmap]
  split
  · rename_i hnone
    have hnone : s.upcoming = [] := by simpa using hnone
    rw [hnone, move_nil, List.nil_append]
    rcases hs with htail | hopen | hline
    · rw [htail]
      rfl
    · exact absurd hnone hopen
    · exact h.tail_isPassed hline
  · rfl

theorem front (h : m.Over s s') (hs : m.Clear State.Open s) :
    s'.front = move m.place s.front := by
  rw [State.front, State.front, h.upcoming hs.bounded]
  cases hup : s.upcoming with
  | nil =>
      have htail : m.tail = [] := hs.resolve_right (absurd hup)
      rw [htail, h.stop htail]
      rfl
  | cons t ts => rfl

/-- Where a line ends with the text, in the longer one a newline ends it. -/
theorem front_kind (h : m.Over s s') (hs : m.Clear State.Bounded s) :
    s'.front.kind = s.front.kind ∨
      s.front.kind = .endOfInput ∧ s'.front.kind = .newline := by
  by_cases hopen : m.Clear State.Open s
  · exact .inl (by rw [h.front hopen]; rfl)
  · obtain ⟨htail, hopen⟩ := not_or.mp hopen
    refine .inr ⟨by rw [State.front_of_not_open hopen]; rfl, ?_⟩
    obtain ⟨t, ts, hts⟩ := List.exists_cons_of_ne_nil htail
    have hup : s.upcoming = [] := Decidable.not_not.mp hopen
    rw [State.front, h.upcoming hs, hup, hts]
    exact m.newline t (by simp [hts])

theorem passTrivia (h : m.Over s s') (hs : m.Clear State.Bounded s) :
    m.Over s.passTrivia s'.passTrivia := by
  refine ⟨h.upcoming hs, h.stop, h.limit, h.depth, h.onLine, ?_⟩
  have htaken : s'.rest.takeWhile s'.isPassed =
      move m.place (s.rest.takeWhile s.isPassed) := by
    have hsplit' : s'.rest.takeWhile s'.isPassed ++ s'.upcoming = s'.rest :=
      List.takeWhile_append_dropWhile
    have hsplit : s.rest.takeWhile s.isPassed ++ s.upcoming = s.rest :=
      List.takeWhile_append_dropWhile
    apply (List.append_left_inj s'.upcoming).mp
    rw [hsplit', h.rest, h.upcoming hs, ← List.append_assoc, ← move_append, hsplit]
  show s'.comments ++ commentNodes _ = move m.place (s.comments ++ commentNodes _)
  rw [htaken, commentNodes_move, h.comments, move_append]

theorem dropFront (h : m.Over s s') (hs : m.Clear State.Open s) :
    m.Over s.dropFront s'.dropFront := by
  have hpass := h.passTrivia hs.bounded
  refine ⟨?_, hpass.stop, hpass.limit, hpass.depth, hpass.onLine, hpass.comments⟩
  show s'.upcoming.drop 1 = move m.place (s.upcoming.drop 1) ++ m.tail
  rw [h.upcoming hs.bounded]
  cases hup : s.upcoming with
  | nil =>
      have htail : m.tail = [] := hs.resolve_right (absurd hup)
      rw [htail]
      rfl
  | cons t ts => rfl

theorem withDepth (h : m.Over s s') (depth : Nat) :
    m.Over { s with depth } { s' with depth } :=
  ⟨h.rest, h.stop, h.limit, rfl, h.onLine, h.comments⟩

theorem withLine (h : m.Over s s') (onLine : Bool) :
    m.Over { s with onLine } { s' with onLine } :=
  ⟨h.rest, h.stop, h.limit, h.depth, rfl, h.comments⟩

end Seam.Over

/-! ## Readers at a seam -/

/-- The second reader does in the longer text what the first one does. If there is anything behind
the last token, the first one has to come to a result, which it leaves a state for as in `L`. -/
structure RepeatsTo (m : Seam) {α : Type} [Moves α] (L : α → State → Prop) (P : State → Prop)
    (p p' : Parse α) : Prop where
  leads : ∀ ⦃s t : State⦄ ⦃a : α⦄, P s → p s = .ok a t → s.Leads t
  ok : ∀ ⦃s s' t : State⦄ ⦃a : α⦄, P s → m.Over s s' → p s = .ok a t → m.Clear (L a) t →
    ∃ t', p' s' = .ok (move m.place a) t' ∧ m.Over t t'
  error : ∀ ⦃s s' t : State⦄ ⦃e : Failure⦄, m.tail = [] → P s → m.Over s s' → p s = .error e t →
    ∃ t', p' s' = .error (move m.place e) t' ∧ m.Over t t'

/-- What is asked of the state that is left does not depend on the result. -/
abbrev Repeats (m : Seam) {α : Type} [Moves α] (L P : State → Prop) (p p' : Parse α) : Prop :=
  RepeatsTo m (fun _ => L) P p p'

/-- What is asked behind a round: as in `K` if another one follows, else as in `L`. -/
def Turn.Leaves {α : Type} (K : State → Prop) (L : α → State → Prop) : Turn α → State → Prop
  | .again _, t => K t
  | .done a, t => L a t

namespace RepeatsTo

variable {m : Seam} {P Q : State → Prop} {α β : Type} [Moves α] [Moves β]
  {L : α → State → Prop} {M : β → State → Prop}

theorem mono {p p' : Parse α} (h : RepeatsTo m L Q p p') (hP : ∀ s, P s → Q s) :
    RepeatsTo m L P p p' :=
  ⟨fun _ _ _ hs => h.leads (hP _ hs), fun _ _ _ _ hs => h.ok (hP _ hs),
    fun _ _ _ _ htail hs => h.error htail (hP _ hs)⟩

/-- Less may be asked of the state that is left than is needed. -/
theorem relax {K : α → State → Prop} {p p' : Parse α} (h : RepeatsTo m K P p p')
    (hL : ∀ a t, L a t → K a t) : RepeatsTo m L P p p' :=
  ⟨h.leads, fun _ _ _ _ hs hover hp ht => h.ok hs hover hp (ht.imp (hL _ _)), h.error⟩

theorem pure {a b : α} (h : b = move m.place a) : RepeatsTo m L P (pure a) (pure b) where
  leads s t c _ hc := by
    obtain ⟨-, rfl⟩ := pure_eq_ok.mp hc
    exact .refl s
  ok s s' t c _ hover hc _ := by
    obtain ⟨rfl, rfl⟩ := pure_eq_ok.mp hc
    exact ⟨s', by rw [h]; rfl, hover⟩
  error s s' t e _ _ _ he := by
    cases he

/-- A failure that shows at the next token. -/
theorem stop {f g : Token → Failure} (h : ∀ t, g (move m.place t) = move m.place (f t)) :
    RepeatsTo m L P (fun s => .error (f s.front) s) fun s => .error (g s.front) s where
  leads s t a _ ha := by simp at ha
  ok s s' t a _ _ ha _ := by simp at ha
  error s s' t e htail _ hover he := by
    obtain ⟨rfl, rfl⟩ := EStateM.Result.error.inj he
    exact ⟨s', by rw [hover.front (.inl htail), h], hover⟩

theorem failFound {cause cause' : Token → Cause}
    (h : ∀ t, cause' (move m.place t) = move m.place (cause t)) :
    RepeatsTo m L P (failFound cause) (failFound cause') :=
  stop (f := fun t => ⟨cause t, t.location⟩) (g := fun t => ⟨cause' t, t.location⟩)
    fun t => congrArg (Failure.mk · _) (h t)

theorem fail {cause : Cause} (h : cause = move m.place cause) :
    RepeatsTo m L P (fail cause) (fail cause) :=
  stop (f := fun t => ⟨cause, t.location⟩) (g := fun t => ⟨cause, t.location⟩)
    fun _ => congrArg (Failure.mk · _) h

theorem failAt {location location' : Position} {cause : Cause}
    (hl : location' = m.place location) (hc : cause = move m.place cause) :
    RepeatsTo m L P (failAt location cause) (failAt location' cause) :=
  stop (f := fun _ => ⟨cause, location⟩) (g := fun _ => ⟨cause, location'⟩) fun _ =>
    Failure.mk.injEq .. ▸ ⟨hc, hl⟩

/-- What is asked behind the first part follows from where the second part leaves the state. -/
theorem bindTo {R : α → State → Prop} {p p' : Parse α} {f f' : α → Parse β}
    (hp : RepeatsTo m L P p p') (hR : ∀ s t a, P s → p s = .ok a t → R a t)
    (hf : ∀ a, RepeatsTo m M (R a) (f a) (f' (move m.place a)))
    (hL : ∀ a s b t, s.Leads t → f a s = .ok b t → M b t → L a s) :
    RepeatsTo m M P (p >>= f) (p' >>= f') where
  leads s t b hs hb := by
    obtain ⟨a, u, ha, hb⟩ := bind_eq_ok.mp hb
    exact (hp.leads hs ha).trans ((hf a).leads (hR s u a hs ha) hb)
  ok s s' t b hs hover hb ht := by
    obtain ⟨a, u, ha, hb⟩ := bind_eq_ok.mp hb
    have hu := hR s u a hs ha
    have hclear : m.Clear (L a) u := ht.imp (hL a u b t ((hf a).leads hu hb) hb)
    obtain ⟨u', ha', hu'⟩ := hp.ok hs hover ha hclear
    obtain ⟨t', hb', ht'⟩ := (hf a).ok hu hu' hb ht
    exact ⟨t', bind_eq_ok.mpr ⟨_, u', ha', hb'⟩, ht'⟩
  error s s' t e htail hs hover he := by
    rcases bind_eq_error.mp he with he | ⟨a, u, ha, he⟩
    · obtain ⟨t', he', ht'⟩ := hp.error htail hs hover he
      exact ⟨t', bind_eq_error.mpr (.inl he'), ht'⟩
    · obtain ⟨u', ha', hu'⟩ := hp.ok hs hover ha (.inl htail)
      obtain ⟨t', he', ht'⟩ := (hf a).error htail (hR s u a hs ha) hu' he
      exact ⟨t', bind_eq_error.mpr (.inr ⟨_, u', ha', he'⟩), ht'⟩

theorem ite {c : Prop} [Decidable c] {p p' q q' : Parse α} (hp : c → RepeatsTo m L P p p')
    (hq : ¬c → RepeatsTo m L P q q') :
    RepeatsTo m L P (if c then p else q) (if c then p' else q') := by
  split
  · exact hp ‹c›
  · exact hq ‹¬c›

/-- A look at the next token, which has to be there if a result is to come of it. -/
theorem look {g : Token → α} {f f' : α → Parse β}
    (hg : ∀ t, g (move m.place t) = move m.place (g t))
    (hf : ∀ a, RepeatsTo m M (fun s => P s ∧ g s.front = a) (f a) (f' (move m.place a)))
    (hopen : ∀ s b t, P s → s.Leads t → f (g s.front) s = .ok b t → M b t → s.Open) :
    RepeatsTo m M P ((fun s => .ok (g s.front) s) >>= f) ((fun s => .ok (g s.front) s) >>= f') where
  leads s t b hs hb := (hf _).leads ⟨hs, rfl⟩ hb
  ok s s' t b hs hover hb ht := by
    have hclear : m.Clear State.Open s :=
      ht.imp (hopen s b t hs ((hf _).leads ⟨hs, rfl⟩ hb) hb)
    show ∃ t', f' (g s'.front) s' = _ ∧ _
    rw [hover.front hclear, hg]
    exact (hf _).ok ⟨hs, rfl⟩ hover hb ht
  error s s' t e htail hs hover he := by
    show ∃ t', f' (g s'.front) s' = _ ∧ _
    rw [hover.front (.inl htail), hg]
    exact (hf _).error htail ⟨hs, rfl⟩ hover he

theorem take (hP : ∀ s, P s → s.Open) {L : Token → State → Prop} :
    RepeatsTo m L P takeFront takeFront where
  leads s t a _ ha := by
    obtain ⟨-, rfl⟩ := EStateM.Result.ok.inj ha
    exact .dropFront s
  ok s s' t a hs hover ha _ := by
    obtain ⟨rfl, rfl⟩ := EStateM.Result.ok.inj ha
    have hclear : m.Clear State.Open s := .inr (hP s hs)
    exact ⟨_, by rw [Grammar.takeFront, hover.front hclear], hover.dropFront hclear⟩
  error s s' t e _ _ _ he := by
    cases he

/-! ## Single steps -/

theorem note (w w' : SkippedMember) {L : Unit → State → Prop} :
    RepeatsTo m L P (note w) (note w') where
  leads s t a _ ha := by
    obtain ⟨-, rfl⟩ := EStateM.Result.ok.inj ha
    exact .note w s
  ok s s' t a _ hover ha _ := by
    obtain ⟨rfl, rfl⟩ := EStateM.Result.ok.inj ha
    exact ⟨_, rfl, hover.rest, hover.stop, hover.limit, hover.depth, hover.onLine, hover.comments⟩
  error s s' t e _ _ _ he := by
    cases he

theorem goDeeper {L : Unit → State → Prop} : RepeatsTo m L P goDeeper goDeeper where
  leads s t a _ ha := by
    unfold Grammar.goDeeper at ha
    split at ha
    · obtain ⟨-, rfl⟩ := EStateM.Result.ok.inj ha
      exact .goDeeper s
    · simp at ha
  ok s s' t a _ hover ha _ := by
    unfold Grammar.goDeeper at ha ⊢
    split at ha
    · rename_i hroom
      obtain ⟨rfl, rfl⟩ := EStateM.Result.ok.inj ha
      rw [if_pos (by rwa [hover.depth, hover.limit]), hover.depth]
      exact ⟨_, rfl, hover.withDepth _⟩
    · simp at ha
  error s s' t e htail _ hover he := by
    unfold Grammar.goDeeper at he ⊢
    split at he
    · simp at he
    · rename_i hroom
      obtain ⟨rfl, rfl⟩ := EStateM.Result.error.inj he
      rw [if_neg (by rwa [hover.depth, hover.limit]), hover.limit, hover.front (.inl htail)]
      exact ⟨s', rfl, hover⟩

end RepeatsTo

namespace Repeats

variable {m : Seam} {P Q L : State → Prop} {α β : Type} [Moves α] [Moves β]

/-! ## Readers put together -/

theorem bindThen [Backward L] {p p' : Parse α} {f f' : α → Parse β} (hp : Repeats m L P p p')
    (hQ : ∀ s t a, P s → p s = .ok a t → Q t)
    (hf : ∀ a, Repeats m L Q (f a) (f' (move m.place a))) :
    Repeats m L P (p >>= f) (p' >>= f') :=
  hp.bindTo hQ hf fun _ _ _ _ hst _ ht => Backward.back hst ht

theorem bind [Backward L] {p p' : Parse α} {f f' : α → Parse β} (hp : Repeats m L P p p')
    (hf : ∀ a, Repeats m L Always (f a) (f' (move m.place a))) :
    Repeats m L P (p >>= f) (p' >>= f') :=
  bindThen hp (fun _ _ _ _ _ => trivial) hf

/-- At the next token all that counts is bounded. -/
theorem toOpen {p p' : Parse α} (h : Repeats m State.Bounded P p p') :
    Repeats m State.Open P p p' :=
  h.relax fun _ _ => .inl

theorem oneDeeper [Backward L] {p p' : Parse α} (hp : Repeats m L Q p p')
    (hP : ∀ s : State, P s → Q { s with depth := s.depth + 1 }) :
    Repeats m L P (oneDeeper p) (oneDeeper p') where
  leads s t a hs ha := by
    obtain ⟨-, u, hu, rfl⟩ := oneDeeper_eq_ok.mp ha
    exact (hp.leads (hP s hs) hu).oneDeeper
  ok s s' t a hs hover ha ht := by
    obtain ⟨hroom, u, hu, rfl⟩ := oneDeeper_eq_ok.mp ha
    obtain ⟨u', hu', hin⟩ := hp.ok (hP s hs) (hover.withDepth _) hu
      (ht.imp Backward.depth)
    refine ⟨{ u' with depth := s'.depth }, oneDeeper_eq_ok.mpr ⟨?_, u', ?_, rfl⟩, ?_⟩
    · rwa [hover.depth, hover.limit]
    · rwa [hover.depth]
    · rw [hover.depth]
      exact hin.withDepth _
  error s s' t e htail hs hover he := by
    rcases oneDeeper_eq_error.mp he with ⟨hroom, rfl, rfl⟩ | ⟨hroom, u, hu, rfl⟩
    · refine ⟨s', oneDeeper_eq_error.mpr (.inl ⟨?_, ?_, rfl⟩), hover⟩
      · rwa [hover.depth, hover.limit]
      · rw [hover.limit, hover.front (.inl htail)]
        rfl
    · obtain ⟨u', hu', hin⟩ := hp.error htail (hP s hs) (hover.withDepth _) hu
      refine ⟨{ u' with depth := s'.depth }, oneDeeper_eq_error.mpr (.inr ⟨?_, u', ?_, rfl⟩), ?_⟩
      · rwa [hover.depth, hover.limit]
      · rwa [hover.depth]
      · rw [hover.depth]
        exact hin.withDepth _

end Repeats

/-- What is read on a directive line is bounded by its end. -/
theorem RepeatsTo.onDirectiveLine {m : Seam} {P Q : State → Prop} {α : Type} [Moves α]
    {L : α → State → Prop} {p p' : Parse α} (hp : Repeats m State.Bounded Q p p')
    (hP : ∀ s : State, P s → Q { s with onLine := true }) :
    RepeatsTo m L P (onDirectiveLine p) (onDirectiveLine p') where
  leads s t a hs ha := by
    obtain ⟨u, hu, rfl⟩ := onDirectiveLine_eq_ok.mp ha
    exact (hp.leads (hP s hs) hu).onDirectiveLine
  ok s s' t a hs hover ha _ := by
    obtain ⟨u, hu, rfl⟩ := onDirectiveLine_eq_ok.mp ha
    have hline : u.Bounded := .inr (hp.leads (hP s hs) hu).onLine
    obtain ⟨u', hu', hin⟩ := hp.ok (hP s hs) (hover.withLine true) hu (.inr hline)
    refine ⟨{ u' with onLine := s'.onLine }, onDirectiveLine_eq_ok.mpr ⟨u', hu', rfl⟩, ?_⟩
    rw [hover.onLine]
    exact hin.withLine _
  error s s' t e htail hs hover he := by
    obtain ⟨u, hu, rfl⟩ := onDirectiveLine_eq_error.mp he
    obtain ⟨u', hu', hin⟩ := hp.error htail (hP s hs) (hover.withLine true) hu
    refine ⟨{ u' with onLine := s'.onLine }, onDirectiveLine_eq_error.mpr ⟨u', hu', rfl⟩, ?_⟩
    rw [hover.onLine]
    exact hin.withLine _

namespace RepeatsTo

variable {m : Seam} {P Q : State → Prop} {α β : Type} [Moves α] [Moves β]
  {L : α → State → Prop} {M : β → State → Prop}

/-! ## Loops -/

variable {K : State → Prop} {round round' : α → Parse (Turn α)}

/-- What is asked of the state behind a loop says what it needs in front of it. -/
theorem rounds_needs
    (hround : ∀ a, RepeatsTo m (Turn.Leaves K L) Always (round a) (round' (move m.place a)))
    (hK : ∀ a s turn t, s.Leads t → round a s = .ok turn t → turn.Leaves K L t → K s)
    {fuel : List Token} {a b : α} {s t : State} (h : rounds round fuel a s = .ok b t)
    (ht : L b t) : K s := by
  induction h using rounds_induction with
  | done hturn => exact hK _ _ _ _ ((hround _).leads trivial hturn) hturn ht
  | again _ hturn ih => exact hK _ _ _ _ ((hround _).leads trivial hturn) hturn ih

/-- Rounds that come to a result do so in the longer text, where more of them are left. -/
theorem rounds_ok
    (hround : ∀ a, RepeatsTo m (Turn.Leaves K L) Always (round a) (round' (move m.place a)))
    (hK : ∀ a s turn t, s.Leads t → round a s = .ok turn t → turn.Leaves K L t → K s)
    {fuel fuel' : List Token} {a b : α} {s s' t : State} (hfuel : fuel.length ≤ fuel'.length)
    (hover : m.Over s s') (h : rounds round fuel a s = .ok b t) (ht : m.Clear (L b) t) :
    ∃ t', rounds round' fuel' (move m.place a) s' = .ok (move m.place b) t' ∧ m.Over t t' := by
  induction h using rounds_induction generalizing fuel' s' with
  | done hturn =>
      obtain ⟨u', hu', hover'⟩ := (hround _).ok trivial hover hturn ht
      exact ⟨u', rounds_done hu' fuel', hover'⟩
  | again hend hturn ih =>
      obtain ⟨y, fuel', rfl⟩ := List.exists_cons_of_length_pos
        (Nat.lt_of_lt_of_le (Nat.succ_pos _) hfuel)
      obtain ⟨u', hu', hover'⟩ :=
        (hround _).ok trivial hover hturn (ht.imp (rounds_needs hround hK hend))
      rw [rounds_again hu']
      exact ih (Nat.le_of_succ_le_succ hfuel) hover'

/-- Rounds fail where the longer text ends with the other one, too. -/
theorem rounds_error
    (hround : ∀ a, RepeatsTo m (Turn.Leaves K L) Always (round a) (round' (move m.place a)))
    (htail : m.tail = []) {fuel fuel' : List Token} {a : α} {e : Failure} {s s' t : State}
    (hfuel : fuel.length = fuel'.length) (hover : m.Over s s')
    (h : rounds round fuel a s = .error e t) :
    ∃ t', rounds round' fuel' (move m.place a) s' = .error (move m.place e) t' ∧
      m.Over t t' := by
  induction h using rounds_error_induction generalizing fuel' s' with
  | fails hturn =>
      obtain ⟨u', hu', hover'⟩ := (hround _).error htail trivial hover hturn
      exact ⟨u', rounds_fails hu' fuel', hover'⟩
  | runsOut hturn hexhausted =>
      obtain rfl := List.length_eq_zero_iff.mp hfuel.symm
      obtain ⟨u', hu', hover'⟩ := (hround _).ok trivial hover hturn (.inl htail)
      refine ⟨u', bind_eq_error.mpr (.inr ⟨_, u', hu', ?_⟩), hover'⟩
      show EStateM.Result.error (Failure.mk .exhausted u'.front.location) u' = _
      rw [hexhausted, hover'.front (.inl htail)]
      rfl
  | again _ hturn ih =>
      obtain ⟨y, fuel', rfl⟩ := List.exists_cons_of_length_eq_add_one hfuel.symm
      obtain ⟨u', hu', hover'⟩ := (hround _).ok trivial hover hturn (.inl htail)
      rw [rounds_again hu']
      exact ih (Nat.succ.inj hfuel) hover'

theorem loopTo {value value' : α}
    (hround : ∀ a, RepeatsTo m (Turn.Leaves K L) Always (round a) (round' (move m.place a)))
    (hK : ∀ a s turn t, s.Leads t → round a s = .ok turn t → turn.Leaves K L t → K s)
    (hvalue : value' = move m.place value) :
    RepeatsTo m L P (loop round value) (loop round' value') where
  leads s t b _ hb := by
    refine Grammar.rounds_ok (I := fun _ u => s.Leads u) (D := fun _ u => s.Leads u) ?_
      (.refl s) hb
    intro c u turn v hu hv
    have huv := hu.trans ((hround c).leads trivial hv)
    cases turn with
    | again _ => exact huv
    | done _ => exact huv
  ok s s' t b _ hover hb ht := by
    subst hvalue
    refine rounds_ok hround hK ?_ hover hb ht
    rw [hover.rest, List.length_append, length_move]
    exact Nat.le_add_right _ _
  error s s' t e htail _ hover he := by
    subst hvalue
    refine rounds_error hround htail ?_ hover he
    rw [hover.rest, htail, List.append_nil, length_move]

end RepeatsTo

namespace Repeats

variable {m : Seam} {P L : State → Prop} {α β : Type} [Moves α] [Moves β]

theorem loop [Backward L] {round round' : α → Parse (Turn α)} {value value' : α}
    (hround : ∀ a, Repeats m L Always (round a) (round' (move m.place a)))
    (hvalue : value' = move m.place value) :
    Repeats m L P (loop round value) (loop round' value') := by
  have hleaves {turn : Turn α} {t : State} (h : turn.Leaves L (fun _ => L) t) : L t := by
    cases turn with
    | again _ => exact h
    | done _ => exact h
  exact RepeatsTo.loopTo (K := L) (fun a => (hround a).relax fun _ _ => hleaves)
    (fun _ _ _ _ hst _ ht => Backward.back hst (hleaves ht)) hvalue

/-! ## Looks -/

variable {f f' : Token.Kind → Parse β}

/-- A look at a token that is known to be there. -/
theorem lookAt {M : β → State → Prop} (hP : ∀ s, P s → s.Open)
    (hf : ∀ k, RepeatsTo m M (fun s => P s ∧ s.front.kind = k) (f k) (f' k)) :
    RepeatsTo m M P (frontKind >>= f) (frontKind >>= f') :=
  .look (fun _ => rfl) hf fun s _ _ hs _ _ _ => hP s hs

/-- A look in front of a token that counts. -/
theorem lookOpen
    (hf : ∀ k, Repeats m State.Open (fun s => P s ∧ s.front.kind = k) (f k) (f' k)) :
    Repeats m State.Open P (frontKind >>= f) (frontKind >>= f') :=
  .look (fun _ => rfl) hf fun _ _ _ _ hst _ ht => Backward.back hst ht

/-- A look that takes the end of a line for the end of the text. -/
theorem lookKind
    (hf : ∀ k, Repeats m State.Bounded (fun s => P s ∧ s.front.kind = k) (f k) (f' k))
    (hend : f' .newline = f' .endOfInput) :
    Repeats m State.Bounded P (frontKind >>= f) (frontKind >>= f') where
  leads s t b hs hb := (hf _).leads ⟨hs, rfl⟩ hb
  ok s s' t b hs hover hb ht := by
    have hrun := (hf _).ok ⟨hs, rfl⟩ hover hb ht
    have hkind := hover.front_kind (ht.back ((hf _).leads ⟨hs, rfl⟩ hb))
    show ∃ t', f' s'.front.kind s' = _ ∧ _
    rcases hkind with hkind | ⟨hnone, hline⟩
    · rwa [hkind]
    · rw [hline, hend]
      rwa [hnone] at hrun
  error s s' t e htail hs hover he := by
    show ∃ t', f' s'.front.kind s' = _ ∧ _
    rw [hover.front (.inl htail)]
    exact (hf _).error htail ⟨hs, rfl⟩ hover he

theorem takeFront : Repeats m State.Open P takeFront takeFront where
  leads s t a _ ha := by
    obtain ⟨-, rfl⟩ := EStateM.Result.ok.inj ha
    exact .dropFront s
  ok s s' t a _ hover ha ht := by
    obtain ⟨rfl, rfl⟩ := EStateM.Result.ok.inj ha
    have hclear : m.Clear State.Open s := ht.back (.dropFront s)
    exact ⟨_, by rw [Grammar.takeFront, hover.front hclear], hover.dropFront hclear⟩
  error s s' t e _ _ _ he := by
    cases he

theorem here : Repeats m State.Open P here here where
  leads s t a _ ha := by
    obtain ⟨-, rfl⟩ := EStateM.Result.ok.inj ha
    exact .refl s
  ok s s' t a _ hover ha ht := by
    obtain ⟨rfl, rfl⟩ := EStateM.Result.ok.inj ha
    exact ⟨s', by rw [Grammar.here, hover.front ht]; rfl, hover⟩
  error s s' t e _ _ _ he := by
    cases he

theorem takeComments : Repeats m State.Open P takeComments takeComments where
  leads s t a _ ha := by
    obtain ⟨-, rfl⟩ := EStateM.Result.ok.inj ha
    exact .takeComments s
  ok s s' t a _ hover ha ht := by
    obtain ⟨rfl, rfl⟩ := EStateM.Result.ok.inj ha
    have hclear : m.Clear State.Open s := ht.back (.takeComments s)
    have hpass := hover.passTrivia hclear.bounded
    refine ⟨{ s'.passTrivia with comments := [] }, ?_, hpass.rest, hpass.stop, hpass.limit,
      hpass.depth, hpass.onLine, rfl⟩
    rw [Grammar.takeComments, ← hpass.comments]
  error s s' t e _ _ _ he := by
    cases he

/-! ## Tokens that are asked for -/

theorem accept {kind : Token.Kind} (hk : kind ≠ .newline ∧ kind ≠ .endOfInput) :
    Repeats m State.Bounded P (accept kind) (accept kind) := by
  refine lookKind (fun k => .ite (fun h => ?_) fun _ => .pure rfl) ?_
  · refine bind (.take fun s hs => ?_) fun _ => .pure rfl
    exact State.open_of_front (by rw [hs.2, h]; exact hk.2)
  · simp only [if_neg hk.1.symm, if_neg hk.2.symm]

theorem acceptMark (mark : Token.Delimiter) :
    Repeats m State.Bounded P (Grammar.accept (.delimiter mark))
      (Grammar.accept (.delimiter mark)) :=
  accept ⟨by simp, by simp⟩

end Repeats

namespace RepeatsTo

variable {m : Seam} {P : State → Prop} {α β : Type} [Moves α] [Moves β] {M : β → State → Prop}

/-- What a required token is read before is there. -/
theorem open_of_require {kind : Token.Kind} (hk : kind ≠ .endOfInput) {place : Place}
    {s t : State} {a : Token} (h : Grammar.require kind place s = .ok a t) :
    s.front.kind = kind ∧ s.Open := by
  obtain ⟨k, u, hu, hend⟩ := bind_eq_ok.mp h
  obtain ⟨rfl, rfl⟩ := EStateM.Result.ok.inj hu
  split at hend
  · rename_i hkind
    exact ⟨hkind, State.open_of_front (by rwa [hkind])⟩
  · cases hend

theorem require {kind : Token.Kind} (hk : kind ≠ .endOfInput) (place : Place)
    {L : Token → State → Prop} :
    RepeatsTo m L P (require kind place) (require kind place) := by
  refine .look (fun _ => rfl) (fun k => .ite (fun h => ?_) fun _ => .failFound fun _ => rfl)
    fun s b t _ _ hb _ => (open_of_require hk hb).2
  exact .take fun s hs => State.open_of_front (by rw [hs.2]; exact h ▸ hk)

theorem requireMark (mark : Token.Delimiter) (place : Place) {L : Token → State → Prop} :
    RepeatsTo m L P (requireMark mark place) (requireMark mark place) :=
  require (by simp) place

/-- What is closed by a required token looks no further than to that token. -/
theorem closedBy {p p' : Parse α} {kind : Token.Kind} {place : Place}
    {f f' : α → Token → Parse β} (hk : kind ≠ .endOfInput)
    (hp : RepeatsTo m (fun _ t => t.front.kind = kind) P p p')
    (hf : ∀ a t, RepeatsTo m M Always (f a t) (f' (move m.place a) (move m.place t))) :
    RepeatsTo m M P (p >>= fun a => Grammar.require kind place >>= f a)
      (p' >>= fun a => Grammar.require kind place >>= f' a) := by
  refine .bindTo hp (fun _ _ _ _ _ => trivial) (fun a => ?_) fun a s b t _ hb _ => ?_
  · exact .bindTo (L := fun _ => Always) (require hk place) (fun _ _ _ _ _ => trivial) (hf a)
      fun _ _ _ _ _ _ _ => trivial
  · obtain ⟨token, u, hu, -⟩ := bind_eq_ok.mp hb
    exact (open_of_require hk hu).1

end RepeatsTo

/-- In front of a token of a known kind all that counts is open. -/
theorem Repeats.toClosed {m : Seam} {P : State → Prop} {α : Type} [Moves α] {p p' : Parse α}
    {kind : Token.Kind} (h : Repeats m State.Open P p p') (hk : kind ≠ .endOfInput) :
    RepeatsTo m (fun _ t => t.front.kind = kind) P p p' :=
  h.relax fun _ t ht => State.open_of_front (by rwa [ht])

/-! ## Two tokens ahead -/

/-- Whether the next token that counts is of the given kind and the one after it as in `c`. -/
def ahead (kind : Token.Kind) (c : Token.Kind → Bool) : Parse Bool := fun s =>
  .ok (decide (s.front.kind = kind) && c s.second.kind) s

theorem RepeatsTo.ahead {m : Seam} {P : State → Prop} {β : Type} [Moves β]
    {M : β → State → Prop} {kind : Token.Kind} {c : Token.Kind → Bool} {f f' : Bool → Parse β}
    (hk : kind ≠ .newline ∧ kind ≠ .endOfInput) (hc : c .newline = false ∧ c .endOfInput = false)
    (hM : ∀ b t, M b t → t.Bounded)
    (hf : ∀ b, RepeatsTo m M (fun s => P s ∧ (b = true → s.front.kind = kind)) (f b) (f' b))
    (hnext : ∀ s b t, P s → s.front.kind = kind → s.Leads t → f false s = .ok b t → M b t →
      s.dropFront.Bounded) :
    RepeatsTo m M P (Grammar.ahead kind c >>= f) (Grammar.ahead kind c >>= f') := by
  have hstart : ∀ s : State, P s → P s ∧
      ((decide (s.front.kind = kind) && c s.second.kind) = true → s.front.kind = kind) :=
    fun s hs => ⟨hs, fun h => of_decide_eq_true (Bool.and_eq_true_iff.mp h).1⟩
  -- What the longer text shows of the second token matters only behind the given kind.
  have hsame : ∀ {s s' : State}, m.Over s s' → m.Clear State.Bounded s →
      (s.front.kind = kind → m.Clear State.Bounded s.dropFront) →
      (decide (s'.front.kind = kind) && c s'.second.kind) =
        (decide (s.front.kind = kind) && c s.second.kind) := by
    intro s s' hover hs hnext
    by_cases hfront : s.front.kind = kind
    · have hopen : m.Clear State.Open s :=
        .inr (State.open_of_front (by rw [hfront]; exact hk.2))
      have hfront' : s'.front.kind = kind := by rw [hover.front hopen]; exact hfront
      have hsecond := (hover.dropFront hopen).front_kind (hnext hfront)
      change s'.second.kind = s.second.kind ∨
        s.second.kind = .endOfInput ∧ s'.second.kind = .newline at hsecond
      rcases hsecond with hsecond | ⟨hnone, hline⟩
      · rw [hfront, hfront', hsecond]
      · rw [hnone, hline, hc.1, hc.2, Bool.and_false, Bool.and_false]
    · have hfront' : s'.front.kind ≠ kind := by
        rcases hover.front_kind hs with hkind | ⟨-, hline⟩
        · rwa [hkind]
        · rw [hline]
          exact hk.1.symm
      rw [decide_eq_false hfront, decide_eq_false hfront', Bool.false_and, Bool.false_and]
  constructor
  · intro s t b hs hb
    exact (hf _).leads (hstart s hs) hb
  · intro s s' t b hs hover hb ht
    have hleads := (hf _).leads (hstart s hs) hb
    have hbounded := (ht.imp (hM b t)).back hleads
    show ∃ t', f' (decide (s'.front.kind = kind) && c s'.second.kind) s' = _ ∧ _
    rw [hsame hover hbounded fun hfront => ?_]
    · exact (hf _).ok (hstart s hs) hover hb ht
    · cases hv : c s.second.kind with
      | true =>
          refine .inr (.inl (State.open_of_front fun hend => ?_))
          rw [show s.second.kind = .endOfInput from hend, hc.2] at hv
          contradiction
      | false =>
          change f (decide (s.front.kind = kind) && c s.second.kind) s = _ at hb
          rw [hv, Bool.and_false] at hb
          exact ht.imp fun ht => hnext s b t hs hfront hleads hb ht
  · intro s s' t e htail hs hover he
    show ∃ t', f' (decide (s'.front.kind = kind) && c s'.second.kind) s' = _ ∧ _
    rw [hsame hover (.inl htail) fun _ => .inl htail]
    exact (hf _).error htail (hstart s hs) hover he

end CSurvey.Grammar
