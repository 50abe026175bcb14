import CSurvey.Proofs.Grammar.Progress

/-! # Running out of nesting

The rules of the grammar are written over rules with one level of nesting less, and at level zero
every construct gives up. Two sets of rules agree on a state where one of them does not give up, or
where the state has too little left to need all of the levels. -/

namespace CSurvey.Grammar

/-- The run gave up because no nesting was left to it. -/
def RunsOut {α : Type} : EStateM.Result Failure State α → Prop
  | .ok _ _ => False
  | .error e _ => e.cause = .exhausted

/-- The state has fewer than `tokens` tokens and fewer than `depth` levels of depth left, and not
more than `structs` keywords for structs. -/
structure State.Room (tokens depth structs : Nat) (s : State) : Prop where
  tokens : s.rest.length < tokens
  depth : s.limit - s.depth < depth
  structs : (s.rest.countP fun t => t.kind = .keyword .structKw) ≤ structs

/-- A condition that holds on once it holds. -/
class Stable (P : State → Prop) : Prop where
  leads {s t : State} : P s → s.Leads t → P t

instance : Stable Always := ⟨fun _ _ => trivial⟩

instance {tokens depth structs : Nat} : Stable (State.Room tokens depth structs) where
  leads h hst := by
    refine ⟨Nat.lt_of_le_of_lt hst.length_le h.tokens, ?_,
      Nat.le_trans (hst.rest.sublist.countP_le) h.structs⟩
    have hlimit := hst.limit
    have hdepth := hst.depth
    have hleft := h.depth
    omega

/-- Behind the keyword for a struct, one of these less is left. -/
theorem State.countP_dropFront_lt {s : State} (hk : s.front.kind = .keyword .structKw) :
    (s.dropFront.rest.countP fun t => t.kind = .keyword .structKw) <
      s.rest.countP fun t => t.kind = .keyword .structKw := by
  have ho : s.Open := State.open_of_front (by simp [hk])
  obtain ⟨t, ts, hup⟩ := List.exists_cons_of_ne_nil ho
  have hfront : t.kind = .keyword .structKw := by simpa [State.front, hup] using hk
  have hcount := (List.dropWhile_suffix s.isPassed (l := s.rest)).sublist.countP_le
    (p := fun t => t.kind = .keyword .structKw)
  have hrest : s.dropFront.rest = ts := by
    show s.upcoming.drop 1 = ts
    rw [hup]
    rfl
  change s.upcoming.countP _ ≤ _ at hcount
  rw [hup, List.countP_cons_of_pos (by simpa using hfront)] at hcount
  rw [hrest]
  omega

theorem State.Room.dropStruct {tokens depth structs : Nat} {s : State}
    (h : s.Room tokens depth (structs + 1)) (hk : s.front.kind = .keyword .structKw) :
    s.dropFront.Room (tokens - 1) depth structs := by
  have ho : s.Open := State.open_of_front (by simp [hk])
  have htokens := h.tokens
  have hstructs := h.structs
  have hshort := ho.length_dropFront
  have hfewer := State.countP_dropFront_lt hk
  exact ⟨by omega, h.depth, by omega⟩

theorem State.Room.mono {tokens depth structs tokens' depth' structs' : Nat} {s : State}
    (h : s.Room tokens depth structs) (ht : tokens ≤ tokens') (hd : depth ≤ depth')
    (hs : structs ≤ structs') : s.Room tokens' depth' structs' :=
  ⟨Nat.lt_of_lt_of_le h.tokens ht, Nat.lt_of_lt_of_le h.depth hd, Nat.le_trans h.structs hs⟩

/-- From the states as in `P`, the first reader does what the second one does and does not give up,
if the second one does not give up either, or in any case where that is `safe`. -/
def Linked (safe : Prop) (P : State → Prop) {α : Type} (p p' : Parse α) : Prop :=
  ∀ ⦃s : State⦄, P s →
    (∀ ⦃a : α⦄ ⦃t : State⦄, p' s = .ok a t → s.Leads t) ∧
      (safe ∨ ¬RunsOut (p' s) → p s = p' s ∧ ¬RunsOut (p s))

namespace Linked

variable {safe : Prop} {P R : State → Prop} {α β : Type} {tokens depth structs : Nat}

/-! ## Composed readers -/

theorem mono {p p' : Parse α} (h : Linked safe R p p') (hP : ∀ s, P s → R s) :
    Linked safe P p p' :=
  fun s hs => h (hP s hs)

theorem pure (a : α) : Linked safe P (pure a) (pure a) := by
  intro s _
  refine ⟨fun b t hb => ?_, fun _ => ⟨rfl, fun h => h⟩⟩
  obtain ⟨-, rfl⟩ := pure_eq_ok.mp hb
  exact .refl s

theorem stop {f : State → Failure} (h : ∀ s, (f s).cause ≠ .exhausted) :
    Linked safe P (α := α) (fun s => .error (f s) s) fun s => .error (f s) s := by
  intro s _
  exact ⟨fun a t ha => by simp at ha, fun _ => ⟨rfl, h s⟩⟩

theorem bindWith {Q : α → State → Prop} {p p' : Parse α} {f f' : α → Parse β}
    (hp : Linked safe P p p') (hQ : ∀ s t a, P s → p' s = .ok a t → Q a t)
    (hf : ∀ a, Linked safe (Q a) (f a) (f' a)) : Linked safe P (p >>= f) (p' >>= f') := by
  intro s hs
  obtain ⟨hleads, hagree⟩ := hp hs
  constructor
  · intro b t hb
    obtain ⟨a, u, ha, hb⟩ := bind_eq_ok.mp hb
    exact (hleads ha).trans ((hf a (hQ s u a hs ha)).1 hb)
  · intro hsafe
    rw [bind_apply] at hsafe
    rw [bind_apply, bind_apply]
    cases hp' : p' s with
    | ok a t =>
        rw [hp'] at hsafe hagree
        obtain ⟨heq, -⟩ := hagree (.inr fun h => h)
        rw [heq]
        exact (hf a (hQ s t a hs hp')).2 hsafe
    | error e t =>
        rw [hp'] at hsafe hagree
        obtain ⟨heq, hout⟩ := hagree hsafe
        rw [heq] at hout
        rw [heq]
        exact ⟨rfl, hout⟩

theorem bind [Stable P] {p p' : Parse α} {f f' : α → Parse β} (hp : Linked safe P p p')
    (hf : ∀ a, Linked safe P (f a) (f' a)) : Linked safe P (p >>= f) (p' >>= f') :=
  bindWith hp (fun _ _ _ hs ha => Stable.leads hs ((hp hs).1 ha)) hf

/-- A look at the state leaves it as it is. -/
theorem bindLook {g : State → α} {f f' : α → Parse β}
    (hf : ∀ a, Linked safe (fun s => P s ∧ g s = a) (f a) (f' a)) :
    Linked safe P ((fun s => .ok (g s) s) >>= f) ((fun s => .ok (g s) s) >>= f') :=
  fun s hs => hf (g s) ⟨hs, rfl⟩

theorem ite {c : Prop} [Decidable c] {p p' q q' : Parse α} (hp : c → Linked safe P p p')
    (hq : ¬c → Linked safe P q q') :
    Linked safe P (if c then p else q) (if c then p' else q') := by
  split
  · exact hp ‹c›
  · exact hq ‹¬c›

/-- One level deeper, a level less is left. -/
theorem oneDeeper {p p' : Parse α}
    (hp : Linked safe (State.Room tokens (depth - 1) structs) p p') :
    Linked safe (State.Room tokens depth structs) (oneDeeper p) (oneDeeper p') := by
  intro s hs
  by_cases hlimit : s.depth < s.limit
  · have hroom : State.Room tokens (depth - 1) structs { s with depth := s.depth + 1 } := by
      have hdepth := hs.depth
      refine ⟨hs.tokens, ?_, hs.structs⟩
      show s.limit - (s.depth + 1) < depth - 1
      omega
    obtain ⟨hleads, hagree⟩ := hp hroom
    constructor
    · intro a t ha
      obtain ⟨-, u, hu, rfl⟩ := oneDeeper_eq_ok.mp ha
      exact (hleads hu).oneDeeper
    · unfold Grammar.oneDeeper Grammar.goDeeper
      simp only [hlimit, if_true]
      cases hp' : p' { s with depth := s.depth + 1 } with
      | ok a t =>
          rw [hp'] at hagree
          obtain ⟨heq, -⟩ := hagree (.inr fun h => h)
          rw [heq]
          exact fun _ => ⟨rfl, fun h => h⟩
      | error e t =>
          rw [hp'] at hagree
          intro hsafe
          obtain ⟨heq, hout⟩ := hagree hsafe
          rw [heq] at hout
          rw [heq]
          exact ⟨rfl, hout⟩
  · unfold Grammar.oneDeeper Grammar.goDeeper
    simp [hlimit, RunsOut]

theorem goDeeper : Linked safe P goDeeper goDeeper := by
  intro s _
  by_cases hlimit : s.depth < s.limit
  · simp only [Grammar.goDeeper, hlimit, if_true]
    refine ⟨fun a t ha => ?_, fun _ => ⟨trivial, fun h => h⟩⟩
    obtain ⟨-, rfl⟩ := EStateM.Result.ok.inj ha
    exact .goDeeper s
  · simp [Grammar.goDeeper, hlimit, RunsOut]

theorem onDirectiveLine {p p' : Parse α} (hp : Linked safe R p p')
    (hP : ∀ s : State, P s → R { s with onLine := true }) :
    Linked safe P (onDirectiveLine p) (onDirectiveLine p') := by
  intro s hs
  obtain ⟨hleads, hagree⟩ := hp (hP s hs)
  constructor
  · intro a t ha
    obtain ⟨u, hu, rfl⟩ := onDirectiveLine_eq_ok.mp ha
    exact (hleads hu).onDirectiveLine
  · unfold Grammar.onDirectiveLine
    cases hp' : p' { s with onLine := true } with
    | ok a t =>
        rw [hp'] at hagree
        obtain ⟨heq, -⟩ := hagree (.inr fun h => h)
        rw [heq]
        exact fun _ => ⟨rfl, fun h => h⟩
    | error e t =>
        rw [hp'] at hagree
        intro hsafe
        obtain ⟨heq, hout⟩ := hagree hsafe
        rw [heq] at hout
        rw [heq]
        exact ⟨rfl, hout⟩

/-- A loop whose rounds take tokens comes to its end. -/
theorem loop [Stable P] {round round' : α → Parse (Turn α)} {value : α}
    (hround : ∀ a, Linked safe P (round a) (round' a))
    (hshort : ∀ a, Advances Always (round' a) (Turn.Asks fun _ => False)) :
    Linked safe P (loop round value) (loop round' value) := by
  have hrounds : ∀ (fuel : List Token) (a : α), Linked safe
      (fun s => P s ∧ s.rest.length ≤ fuel.length) (rounds round fuel a)
      (rounds round' fuel a) := by
    intro fuel
    induction fuel with
    | nil =>
        intro a
        refine bindWith (Q := fun turn _ => ∃ b, turn = .done b)
          ((hround a).mono fun s hs => hs.1) ?_ fun turn => ?_
        · intro s t turn hs hturn
          cases turn with
          | again b =>
              have hlt := hshort a trivial hturn trivial
              exact absurd hlt (by have hle := hs.2; simp at hle; simp [hle])
          | done b =>
              exact ⟨b, rfl⟩
        · cases turn with
          | again b =>
              rintro s ⟨c, hc⟩
              contradiction
          | done b =>
              exact pure b
    | cons x fuel ih =>
        intro a
        refine bindWith (Q := fun turn t => P t ∧ (∀ b, turn = .again b →
          t.rest.length ≤ fuel.length)) ((hround a).mono fun s hs => hs.1) ?_ fun turn => ?_
        · intro s t turn hs hturn
          refine ⟨Stable.leads hs.1 ((hround a hs.1).1 hturn), ?_⟩
          rintro b rfl
          have hlt := hshort a trivial hturn trivial
          have hle := hs.2
          simp only [List.length_cons] at hle
          omega
        · cases turn with
          | again b =>
              exact (ih b).mono fun s hs => ⟨hs.1, hs.2 b rfl⟩
          | done b =>
              exact pure b
  intro s hs
  exact hrounds s.rest value ⟨hs, Nat.le_refl _⟩

/-- Behind a part that takes a token, a token less is left. -/
theorem bindShorter {p p' : Parse α} {f f' : α → Parse β} (hp : Linked safe P p p')
    (hshort : Advances P p' Always) (hP : ∀ s, P s → s.Room tokens depth structs)
    (hf : ∀ a, Linked safe (State.Room (tokens - 1) depth structs) (f a) (f' a)) :
    Linked safe P (p >>= f) (p' >>= f') := by
  refine bindWith hp (fun s t a hs ha => ?_) hf
  have hroom := Stable.leads (hP s hs) ((hp hs).1 ha)
  have hlt := hshort hs ha trivial
  have htokens := (hP s hs).tokens
  refine ⟨?_, hroom.depth, hroom.structs⟩
  omega

/-! ## Single steps -/

theorem takeFront : Linked safe P takeFront takeFront := by
  intro s _
  refine ⟨fun a t ha => ?_, fun _ => ⟨rfl, fun h => h⟩⟩
  obtain ⟨-, rfl⟩ := EStateM.Result.ok.inj ha
  exact .dropFront s

/-- A token that is taken is no longer left. -/
theorem take {f f' : Token → Parse β}
    (hP : ∀ s : State, P s → s.Open ∧ s.Room tokens depth structs)
    (hf : ∀ t, Linked safe (State.Room (tokens - 1) depth structs) (f t) (f' t)) :
    Linked safe P (Grammar.takeFront >>= f) (Grammar.takeFront >>= f') :=
  bindShorter takeFront (Advances.takeFront.mono fun s hs => (hP s hs).1)
    (fun s hs => (hP s hs).2) hf

/-- A reader that never gives up agrees with itself anywhere. -/
theorem calm {p : Parse α} (h : Linked safe Always p p) : Linked safe P p p :=
  h.mono fun _ _ => trivial

theorem look (g : State → α) : Linked safe P (fun s => .ok (g s) s) fun s => .ok (g s) s := by
  intro s _
  refine ⟨fun a t ha => ?_, fun _ => ⟨rfl, fun h => h⟩⟩
  obtain ⟨-, rfl⟩ := EStateM.Result.ok.inj ha
  exact .refl s

theorem frontKind : Linked safe P frontKind frontKind := look _

theorem secondKind : Linked safe P secondKind secondKind := look _

theorem here : Linked safe P here here := look _

theorem note (w : SkippedMember) : Linked safe P (note w) (note w) := by
  intro s _
  refine ⟨fun a t ha => ?_, fun _ => ⟨rfl, fun h => h⟩⟩
  obtain ⟨-, rfl⟩ := EStateM.Result.ok.inj ha
  exact .note w s

theorem takeComments : Linked safe P takeComments takeComments := by
  intro s _
  refine ⟨fun a t ha => ?_, fun _ => ⟨rfl, fun h => h⟩⟩
  obtain ⟨-, rfl⟩ := EStateM.Result.ok.inj ha
  exact .takeComments s

theorem accept (kind : Token.Kind) : Linked safe P (accept kind) (accept kind) :=
  calm <| bind frontKind fun _ => ite (fun _ => bind takeFront fun _ => pure _) fun _ => pure _

theorem require (kind : Token.Kind) (place : Place) :
    Linked safe P (require kind place) (require kind place) :=
  calm <| bind frontKind fun _ => ite (fun _ => takeFront) fun _ => stop (by simp)

theorem requireMark (mark : Token.Delimiter) (place : Place) :
    Linked safe P (requireMark mark place) (requireMark mark place) := require _ _

theorem commaSeparated [Stable P] {p p' : Parse α} (hp : Linked safe P p p')
    (hc : Composed true true p') : Linked safe P (commaSeparated p) (commaSeparated p') := by
  refine bind (loop (fun found => ?_) fun found => ?_) fun _ => pure _
  · exact bind hp fun _ => bind (accept _) fun _ => ite (fun _ => pure _) fun _ => pure _
  · exact .bindRight hc fun _ => .bindAccept (by simp) (.pure _) (.pure fun h => h)

theorem lineTexts : Linked safe P lineTexts lineTexts := by
  refine calm <| bind (loop (fun found => ?_) fun found => ?_) fun _ => pure _
  · refine bind frontKind fun kind => ?_
    split
    · exact pure _
    · exact pure _
    · exact bind takeFront fun _ => pure _
  · refine .bindLook fun kind => ?_
    split
    · exact .pure fun h => h
    · exact .pure fun h => h
    · exact .bindLeft (.takeKind (by assumption)) fun _ => .pure _

/-! ## Types and declarators -/

theorem typeModifiers : Linked safe P typeModifiers typeModifiers := by
  refine calm <| bind (loop (fun words => ?_) fun words => ?_) fun _ => pure _
  · exact bind frontKind fun _ => ite (fun _ => bind takeFront fun _ => pure _) fun _ => pure _
  · exact .bindLook fun kind => .ite
      (fun h => .bindLeft (.takeKind (by rintro rfl; contradiction)) fun _ => .pure _)
      fun _ => .pure fun h => h

theorem pointerStars (type : String) : Linked safe P (pointerStars type) (pointerStars type) := by
  refine calm <| loop (fun type => ?_) fun type => ?_
  · exact bind (accept _) fun _ => ite (fun _ => pure _) fun _ => pure _
  · exact .bindAccept (by simp) (.pure _) (.pure fun h => h)

theorem skipQualifiers : Linked safe P skipQualifiers skipQualifiers := by
  refine calm <| loop (fun _ => ?_) fun _ => ?_
  · refine bind frontKind fun kind => ?_
    split
    · exact bind takeFront fun _ => pure _
    · exact bind takeFront fun _ => pure _
    · exact pure _
  · refine .bindLook fun kind => ?_
    split
    · exact .bindLeft (.takeKind (by simp)) fun _ => .pure _
    · exact .bindLeft (.takeKind (by simp)) fun _ => .pure _
    · exact .pure fun h => h

theorem pointers : Linked safe P pointers pointers := by
  refine calm <| loop (fun _ => ?_) fun _ => ?_
  · exact bind (accept _) fun _ => ite (fun _ => bind skipQualifiers fun _ => pure _)
      fun _ => pure _
  · exact .bindAccept (by simp) (.bind .skipQualifiers fun _ => .pure _) (.pure fun h => h)

end Linked

/-- Rules that agree with others on states with little left. -/
structure Rules.Linked (safe : Prop) (r r' : Rules) (tokens depth structs : Nat) : Prop where
  composed : r'.Composed
  advances : Advances State.Settled r'.statement Always
  expression : Grammar.Linked safe (State.Room tokens depth structs) r.expression r'.expression
  conditional :
    Grammar.Linked safe (State.Room tokens (depth - 1) structs) r.conditional r'.conditional
  unary : Grammar.Linked safe (State.Room tokens (depth - 1) structs) r.unary r'.unary
  initializer : Grammar.Linked safe (State.Room (tokens - 1) (depth - 1) structs) r.initializer
    r'.initializer
  structSpecifier : Grammar.Linked safe
    (fun s => s.Room tokens depth structs ∧ s.front.kind = .keyword .structKw)
    r.structSpecifier r'.structSpecifier
  statement :
    Grammar.Linked safe (State.Room (tokens - 1) depth structs) r.statement r'.statement

namespace Linked

variable {safe : Prop} {P : State → Prop} {r r' : Rules} {tokens depth structs : Nat}

/-! ## Types and declarators -/

theorem typeSpecifier (h : r.Linked safe r' tokens depth structs) :
    Linked safe (State.Room tokens depth structs) (typeSpecifier r) (typeSpecifier r') := by
  refine bind typeModifiers fun words => bindLook fun kind => ite (fun _ => ?_) fun _ =>
    ite (fun hk => ?_) fun _ => ite (fun _ => stop (by simp)) fun _ => pure _
  · exact calm <| bind takeFront fun _ => pure _
  · exact bindWith (h.structSpecifier.mono fun s hs => ⟨hs.1, hs.2.trans hk⟩)
      (fun _ _ _ _ _ => trivial) fun _ => pure _

theorem typeName (h : r.Linked safe r' tokens depth structs) :
    Linked safe (State.Room tokens depth structs) (typeName r) (typeName r') :=
  bind (typeSpecifier h) fun _ => pointerStars _

theorem arraySize (h : r.Linked safe r' tokens depth structs) :
    Linked safe (State.Room tokens depth structs) (arraySize r) (arraySize r') :=
  bind takeFront fun _ => bind (accept _) fun _ => ite (fun _ => pure _) fun _ =>
    bind h.expression fun _ => bind (requireMark _ _) fun _ => pure _

theorem arraySizes (h : r.Linked safe r' tokens depth structs) :
    Linked safe (State.Room tokens depth structs) (arraySizes r) (arraySizes r') := by
  refine bind (loop (fun sizes => ?_) fun sizes => ?_) fun _ => pure _
  · exact bind frontKind fun _ => ite (fun _ => bind (arraySize h) fun _ => pure _)
      fun _ => pure _
  · refine .bindLook fun kind => .ite (fun hk => ?_) fun _ => .pure fun h => h
    exact .bindLeft (.ofTakes (Composed.opens_arraySize h.composed).toTrue fun s hs =>
      State.open_of_front (by simp [hs.2, hk])) fun _ => .pure _

theorem parameterSizes (h : r.Linked safe r' tokens depth structs) (type : String) :
    Linked safe (State.Room tokens depth structs) (parameterSizes r type)
      (parameterSizes r' type) := by
  refine loop (fun type => ?_) fun type => ?_
  · refine bind (accept _) fun _ => ite (fun _ => ?_) fun _ => pure _
    refine bind frontKind fun _ => ite (fun _ => ?_) fun _ => ?_
    · exact bind (pure _) fun _ => bind (requireMark _ _) fun _ => pure _
    · exact bind h.expression fun _ => bind (pure _) fun _ => bind (requireMark _ _) fun _ =>
        pure _
  · refine .bindAccept (by simp) ?_ (.pure fun h => h)
    refine .bind .frontKind fun _ => .ite ?_ ?_
    · exact .bind (.pure _) fun _ => .bind (.requireMark _ _) fun _ => .pure _
    · exact .bind (.relax h.composed.expression) fun _ => .bind (.pure _) fun _ =>
        .bind (.requireMark _ _) fun _ => .pure _

theorem parameterName : Linked safe P parameterName parameterName :=
  calm <| bind frontKind fun _ => ite (fun _ => bind takeFront fun _ => pure _) fun _ => pure _

theorem parameter (h : r.Linked safe r' tokens depth structs) :
    Linked safe (State.Room tokens depth structs) (parameter r) (parameter r') :=
  bind here fun _ => bind frontKind fun _ => ite
    (fun _ => bind (typeName h) fun _ => bind parameterName fun _ =>
      bind (parameterSizes h _) fun _ => pure _)
    fun _ => stop (by simp)

theorem ellipsis : Linked safe P ellipsis ellipsis :=
  calm <| bind here fun _ => bind (requireMark _ _) fun _ => bind (requireMark _ _) fun _ =>
    bind (requireMark _ _) fun _ => pure _

theorem parameters (h : r.Linked safe r' tokens depth structs) :
    Linked safe (State.Room tokens depth structs) (parameters r) (parameters r') := by
  refine bind (loop (fun found => ?_) fun found => ?_) fun _ => pure _
  · refine bind frontKind fun _ => ite (fun _ => bind ellipsis fun _ => pure _) fun _ => ?_
    exact bind (parameter h) fun _ => bind (accept _) fun _ => ite (fun _ => pure _)
      fun _ => pure _
  · refine .bindRight .frontKind fun _ => .ite (fun _ => ?_) fun _ => ?_
    · exact .bindRight .ellipsis fun _ => .pure fun h => h
    · exact .bindRight (.relax (.parameter h.composed)) fun _ =>
        .bindAccept (by simp) (.pure _) (.pure fun h => h)

theorem parameterList (h : r.Linked safe r' tokens depth structs) :
    Linked safe (State.Room tokens depth structs) (parameterList r) (parameterList r') :=
  bind frontKind fun _ => bind secondKind fun _ => ite (fun _ => pure _) fun _ =>
    ite (fun _ => bind takeFront fun _ => pure _) fun _ => parameters h

theorem declarator (h : r.Linked safe r' tokens depth structs) :
    Linked safe (State.Room tokens depth structs) (declarator r) (declarator r') := by
  refine bind pointers fun _ => bind frontKind fun _ => ite (fun _ => ?_) fun _ => stop (by simp)
  refine bind takeFront fun _ => bind (accept _) fun _ => ite (fun _ => ?_) fun _ => ?_
  · exact bind (parameterList h) fun _ => bind (requireMark _ _) fun _ => pure _
  · exact bind (arraySizes h) fun _ => pure _

theorem structMembers (h : r.Linked safe r' tokens depth structs) :
    Linked safe (State.Room tokens depth structs) (structMembers r) (structMembers r') :=
  bind here fun _ => bind (typeSpecifier h) fun _ =>
    bind (commaSeparated (declarator h) (.relax (.declarator h.composed))) fun _ =>
    bind (requireMark _ _) fun _ => pure _

theorem reportPassed (tag : String) (passed : List Token) :
    Linked safe P (reportPassed tag passed) (reportPassed tag passed) := by
  unfold Grammar.reportPassed
  split
  · exact pure _
  · exact note _

theorem passBraces (passed : List Token) :
    Linked safe P (passBraces passed) (passBraces passed) := by
  refine calm <| bind (loop (fun (depth, passed) => ?_) fun (depth, passed) => ?_) fun _ => pure _
  · refine bind takeFront fun token => ?_
    split
    · exact pure _
    · exact pure _
    · exact ite (fun _ => pure _) fun _ => pure _
    · exact ite (fun _ => pure _) fun _ => pure _
  · refine .bindEither .takeInner .takeFront (fun token _ => ?_) fun token hend => ?_
    · split
      · exact .pure _
      · exact .pure _
      · exact .ite (.pure _) (.pure _)
      · exact .ite (.pure _) (.pure _)
    · rw [Decidable.not_not.mp hend]
      exact .pure fun h => h

theorem structBody (h : r.Linked safe r' tokens depth structs) (tag : String) :
    Linked safe (State.Room tokens depth structs) (structBody r tag) (structBody r' tag) := by
  refine bind (loop (fun body => ?_) fun body => ?_) fun _ => bind (reportPassed _ _) fun _ =>
    pure _
  · refine bind frontKind fun kind => ite (fun _ => pure _) fun _ =>
      ite (fun _ => stop (by simp)) fun _ => ite (fun _ => ?_) fun _ =>
      ite (fun _ => ?_) fun _ => ?_
    · exact bind (reportPassed _ _) fun _ => bind (structMembers h) fun _ => pure _
    · exact bind (passBraces _) fun _ => pure _
    · exact bind takeFront fun _ => pure _
  · refine .bindLook fun kind => .ite (fun _ => .pure fun h => h) fun _ =>
      .ite (fun _ => .stop) fun hend => .ite (fun _ => ?_) fun _ => .ite (fun hk => ?_) fun _ => ?_
    · exact .bindRight (.reportPassed _ _) fun _ =>
        .bindLeft (.structMembers h.composed) fun _ => .pure _
    · exact .bindLeft ((Advances.passBraces _).mono fun s hs =>
        State.open_of_front (by simp [hs.2, hk])) fun _ => .pure _
    · exact .bindLeft (.takeKind hend) fun _ => .pure _

/-- The keyword is taken before anything inside the struct is read. -/
theorem structSpecifier (h : r.Linked safe r' tokens depth structs) :
    Linked safe
      (fun s => s.Room (tokens + 1) depth (structs + 1) ∧ s.front.kind = .keyword .structKw)
      (structSpecifier r) (structSpecifier r') := by
  refine bindWith takeFront (Q := fun _ => State.Room tokens depth structs) (fun s t a hs ha => ?_)
    fun keyword => bind frontKind fun _ => ite (fun _ => ?_) fun _ => stop (by simp)
  · obtain ⟨-, rfl⟩ := EStateM.Result.ok.inj ha
    exact hs.1.dropStruct hs.2
  · refine bind takeFront fun tag => bind (accept _) fun _ => ite (fun _ => ?_) fun _ => pure _
    exact bind (structBody h _) fun _ => bind (requireMark _ _) fun _ => pure _

/-! ## Expressions -/

theorem moreStrings (text : String) : Linked safe P (moreStrings text) (moreStrings text) := by
  refine calm <| loop (fun text => ?_) fun text => ?_
  · exact bind frontKind fun _ => ite (fun _ => bind takeFront fun _ => pure _) fun _ => pure _
  · exact .bindLook fun kind => .ite
      (fun hk => .bindLeft (.takeKind (by simp [hk])) fun _ => .pure _)
      fun _ => .pure fun h => h

/-- The token that opens a primary is taken before anything inside is read. -/
theorem primary (h : r.Linked safe r' tokens depth structs) :
    Linked safe (State.Room (tokens + 1) depth structs) (primary r) (primary r') := by
  refine bindLook fun token => ?_
  split
  · refine calm <| bind takeFront fun _ => ?_
    split
    · exact pure _
    · exact stop (by simp)
  · exact calm <| bind takeFront fun _ => bind (moreStrings _) fun _ => pure _
  · exact calm <| bind takeFront fun _ => pure _
  · exact calm <| bind takeFront fun _ => pure _
  · rename_i hk
    refine take (fun s hs => ⟨State.open_of_front ?_, hs.1⟩) fun _ =>
      bind h.expression fun _ => bind (requireMark _ _) fun _ => pure _
    simp [hs.2, hk]
  · exact stop (by simp)

theorem arguments (h : r.Linked safe r' tokens depth structs) :
    Linked safe (State.Room tokens depth structs) (arguments r) (arguments r') :=
  bind frontKind fun _ => ite (fun _ => pure _) fun _ =>
    commaSeparated h.expression (.relax h.composed.expression)

theorem memberOf (kind : Node.Kind) (operand : Node) :
    Linked safe P (memberOf kind operand) (memberOf kind operand) :=
  calm <| bind takeFront fun _ => bind (require _ _) fun _ => pure _

theorem continued (h : r.Linked safe r' tokens depth structs) (operand : Node) :
    Linked safe (State.Room (tokens + 1) depth structs) (continued r operand)
      (continued r' operand) := by
  refine bindLook fun kind => ?_
  split
  · refine take (fun s hs => ⟨State.open_of_front (by simp [hs.2]), hs.1⟩) fun _ =>
      bind h.expression fun _ => bind (requireMark _ _) fun _ => pure _
  · refine take (fun s hs => ⟨State.open_of_front (by simp [hs.2]), hs.1⟩) fun _ =>
      bind (arguments h) fun _ => bind (requireMark _ _) fun _ => pure _
  · exact memberOf _ _
  · exact memberOf _ _
  · exact calm <| bind takeFront fun _ => pure _

theorem operand (h : r.Linked safe r' tokens depth structs) :
    Linked safe (State.Room (tokens + 1) depth structs) (operand r) (operand r') := by
  refine bind (primary h) fun _ => loop (fun inner => ?_) fun inner => ?_
  · exact bind frontKind fun kind => ite
      (fun _ => bind goDeeper fun _ => bind (continued h _) fun _ => pure _) fun _ => pure _
  · refine .bindLook fun kind => .ite (fun hk => ?_) fun _ => .pure fun h => h
    refine .deeper (R := fun s => continuesOperand s.front.kind = true) (fun s hs => ?_) fun _ =>
      .bindLeft (.continued h.composed _) fun _ => .pure _
    have hfront : continuesOperand s.front.kind = true := by rwa [hs.2]
    exact hfront

theorem typeInParens : Linked safe P typeInParens typeInParens :=
  calm <| bind frontKind fun _ => bind secondKind fun _ => pure _

theorem sizeOf (h : r.Linked safe r' tokens depth structs) :
    Linked safe (fun s => s.Room (tokens + 1) depth structs ∧ s.Open) (sizeOf r) (sizeOf r') := by
  refine take (fun s hs => ⟨hs.2, hs.1⟩) fun keyword => bind typeInParens fun _ =>
    ite (fun _ => ?_) fun _ => ?_
  · exact bind takeFront fun _ => bind (typeName h) fun _ => bind (requireMark _ _) fun _ => pure _
  · exact bind (oneDeeper h.unary) fun _ => pure _

theorem cast (h : r.Linked safe r' tokens depth structs) :
    Linked safe (fun s => s.Room (tokens + 1) depth structs ∧ s.Open) (cast r) (cast r') :=
  take (fun _ hs => ⟨hs.2, hs.1⟩) fun _ => bind (typeName h) fun _ =>
    bind (requireMark _ _) fun _ => bind (oneDeeper h.unary) fun _ => pure _

theorem unary (h : r.Linked safe r' tokens depth structs) :
    Linked safe (State.Room (tokens + 1) depth structs) (unary r) (unary r') := by
  refine bindLook fun kind => ?_
  split
  · refine ite (fun _ => ?_) fun _ => ite (fun _ => ?_) fun _ => ?_
    · exact take (fun s hs => ⟨State.open_of_front (by simp [hs.2]), hs.1⟩) fun _ =>
        bind (oneDeeper h.unary) fun _ => pure _
    · refine bindWith takeFront (fun s t a hs ha => ?_) fun _ =>
        bind (operand h) fun _ => pure _
      obtain ⟨-, rfl⟩ := EStateM.Result.ok.inj ha
      exact Stable.leads hs.1 (.dropFront s)
    · exact (operand h).mono fun s hs => hs.1
  · exact (sizeOf h).mono fun s hs => ⟨hs.1, State.open_of_front (by simp [hs.2])⟩
  · refine bindLook (g := fun s => decide (s.front.kind = .delimiter .leftParen) &&
      s.second.kind.startsType) fun ahead => ite (fun hcast => ?_) fun _ => ?_
    · refine (cast h).mono fun s hs => ⟨hs.1.1, State.open_of_front ?_⟩
      have hparen := hs.2.trans hcast
      simp only [Bool.and_eq_true, decide_eq_true_eq] at hparen
      simp [hparen.1]
    · exact (operand h).mono fun s hs => hs.1.1

theorem chain (level : Nat) {operand operand' : Parse Node}
    (h : Linked safe (State.Room tokens depth structs) operand operand')
    (hc : Composed true true operand') :
    Linked safe (State.Room tokens depth structs) (chain level operand)
      (chain level operand') := by
  refine bind h fun _ => loop (fun left => ?_) fun left => ?_
  · exact bind frontKind fun kind => ite
      (fun _ => bind goDeeper fun _ => bind takeFront fun _ => bind h fun _ => pure _)
      fun _ => pure _
  · refine .bindLook fun kind => .ite (fun hk => ?_) fun _ => .pure fun h => h
    refine .deeper (R := State.Open) (fun s hs => ?_) fun _ =>
      .bindLeft .takeFront fun _ => .bind hc fun _ => .pure _
    have hopen : s.Open := by
      refine State.open_of_front fun hend => ?_
      rw [← hs.2, hend] at hk
      contradiction
    exact hopen

theorem binary (h : r.Linked safe r' tokens depth structs) (level : Nat) :
    Linked safe (State.Room (tokens + 1) depth structs) (binary r level) (binary r' level) := by
  induction level with
  | zero => exact unary h
  | succ level ih => exact chain _ ih (.relax (.binary h.composed level))

theorem conditional (h : r.Linked safe r' tokens depth structs) :
    Linked safe (State.Room (tokens + 1) depth structs) (conditional r) (conditional r') := by
  refine bind (binary h 10) fun _ => bindLook fun kind => ite (fun hk => ?_) fun _ => pure _
  refine take (fun s hs => ⟨State.open_of_front (by simp [hs.2, hk]), hs.1⟩) fun _ =>
    bind h.expression fun _ => bind (requireMark _ _) fun _ =>
    bind (oneDeeper h.conditional) fun _ => pure _

/-- A level of depth is taken before anything inside is read. -/
theorem expression (h : r.Linked safe r' tokens (depth - 1) structs) :
    Linked safe (State.Room (tokens + 1) depth structs) (expression r) (expression r') := by
  refine oneDeeper <| bind (conditional h) fun _ => bindLook fun kind =>
    ite (fun hk => ?_) fun _ => pure _
  refine take (fun s hs => ⟨State.open_of_front ?_, hs.1⟩) fun _ =>
    bind h.expression fun _ => pure _
  rintro hend
  rw [← hs.2, hend] at hk
  contradiction

theorem initializer (h : r.Linked safe r' tokens depth structs) :
    Linked safe (State.Room tokens depth structs) (initializer r) (initializer r') := by
  refine bindLook fun kind => ite (fun hk => ?_) fun _ => h.expression.mono fun s hs => hs.1
  refine take (fun s hs => ⟨State.open_of_front (by simp [hs.2, hk]), hs.1⟩) fun _ =>
    bind (loop (fun items => ?_) fun items => ?_) fun _ => bind (requireMark _ _) fun _ => pure _
  · exact bind frontKind fun _ => ite (fun _ => pure _) fun _ =>
      bind (oneDeeper h.initializer) fun _ => bind (accept _) fun _ =>
        ite (fun _ => pure _) fun _ => pure _
  · exact .bindLook fun kind => .ite (fun _ => .pure fun h => h) fun _ =>
      .bindRight (.oneDeeper (.relax h.composed.initializer)) fun _ =>
        .bindAccept (by simp) (.pure _) (.pure fun h => h)

/-! ## Directive lines -/

theorem headerName : Linked safe P headerName headerName := by
  refine calm <| bind (loop (fun name => ?_) fun name => ?_) fun name =>
    ite (fun _ => stop (by simp)) fun _ => bind takeFront fun _ => pure _
  · refine bind frontKind fun kind => ?_
    split
    · exact pure _
    · exact stop (by simp)
    · exact stop (by simp)
    · exact bind takeFront fun _ => pure _
  · refine .bindLook fun kind => ?_
    split
    · exact .pure fun h => h
    · exact .stop
    · exact .stop
    · exact .bindLeft (.takeKind (by assumption)) fun _ => .pure _

theorem inclusionTarget : Linked safe P inclusionTarget inclusionTarget := by
  refine calm <| bind frontKind fun kind => ?_
  split
  · exact bind takeFront fun _ => pure _
  · exact bind takeFront fun _ => headerName
  · exact stop (by simp)

theorem inclusion : Linked safe P inclusion inclusion :=
  calm <| bind takeFront fun _ => bind
    (onDirectiveLine (R := Always) (bind inclusionTarget fun _ => bind lineTexts fun _ => pure _)
      fun _ _ => trivial)
    fun _ => pure _

theorem macroValue (h : r.Linked safe r' tokens depth structs) :
    Linked safe (State.Room tokens depth structs) (macroValue r) (macroValue r') :=
  bind frontKind fun _ => ite (fun _ => bind h.expression fun _ => pure _) fun _ =>
    ite (fun _ => pure _) fun _ => bind here fun _ => bind lineTexts fun _ => pure _

theorem macroDefinition (h : r.Linked safe r' tokens depth structs) :
    Linked safe (State.Room tokens depth structs) (macroDefinition r) (macroDefinition r') :=
  bind takeFront fun _ => onDirectiveLine
    (bind (require _ _) fun _ => bind (macroValue h) fun _ => bind lineTexts fun _ => pure _)
    fun _ hs => ⟨hs.tokens, hs.depth, hs.structs⟩

theorem otherDirective : Linked safe P otherDirective otherDirective :=
  calm <| bind here fun _ => bind (onDirectiveLine (R := Always) lineTexts fun _ _ => trivial)
    fun _ => pure _

/-! ## Declarations -/

theorem block (h : r.Linked safe r' tokens depth structs) :
    Linked safe (State.Room tokens depth structs) (block r) (block r') := by
  refine bindShorter (requireMark _ _) (.requireMark _ _) (fun s hs => hs) fun brace =>
    bind (loop (fun found => ?_) fun found => ?_) fun _ => bind (requireMark _ _) fun _ => pure _
  · refine bind takeComments fun comments => bind frontKind fun kind => ?_
    split
    · exact pure _
    · exact stop (by simp)
    · exact bind h.statement fun _ => pure _
  · refine .afterComments fun comments => .bindLook fun kind => ?_
    split
    · exact .pure fun h => h
    · exact .stop
    · exact .bindLeft (h.advances.mono fun s hs => hs.1) fun _ => .pure _

theorem declared (h : r.Linked safe r' tokens depth structs) (location : Position)
    (type : String) (d : Declarator) (body : Option Node) :
    Linked safe (State.Room tokens depth structs) (declared r location type d body)
      (declared r' location type d body) :=
  ite (fun _ => pure _) fun _ => bind (accept _) fun _ =>
    ite (fun _ => bind (initializer h) fun _ => pure _) fun _ => pure _

theorem declaredNames (h : r.Linked safe r' tokens depth structs) (location : Position)
    (type : TypeSpecifier) (body : Option Node) :
    Linked safe (State.Room tokens depth structs) (declaredNames r location type body)
      (declaredNames r' location type body) := by
  refine loop (fun names => ?_) fun names => ?_
  · refine bind (declarator h) fun d => bind frontKind fun kind => ite (fun _ => ?_) fun _ => ?_
    · exact bind (block h) fun _ => pure _
    · exact bind (declared h _ _ _ _) fun _ => bind (accept _) fun _ =>
        ite (fun _ => pure _) fun _ => pure _
  · refine .bindRight (.relax (.declarator h.composed)) fun d => .bindRight .frontKind fun kind =>
      .ite (fun _ => ?_) fun _ => ?_
    · exact .bindLeft (.block h.composed) fun _ => .pure _
    · exact .bindRight (.relax (.declared h.composed _ _ _ _)) fun _ =>
        .bindAccept (by simp) (.pure _) (.pure fun h => h)

theorem declaration (h : r.Linked safe r' tokens depth structs) :
    Linked safe (State.Room tokens depth structs) (declaration r) (declaration r') :=
  bind here fun _ => bind (typeSpecifier h) fun _ => bind (accept _) fun _ =>
    ite (fun _ => pure _) fun _ => bind (declaredNames h _ _ _) fun _ =>
      ite (fun _ => pure _) fun _ => bind (requireMark _ _) fun _ => pure _

/-! ## Statements -/

theorem singleStatement (h : r.Linked safe r' tokens depth structs) :
    Linked safe (State.Room (tokens - 1) depth structs) (singleStatement r)
      (singleStatement r') :=
  bind here fun _ => bind h.statement fun _ => pure _

theorem condition (h : r.Linked safe r' tokens depth structs) (word : String) (place : Place) :
    Linked safe (State.Room tokens depth structs) (condition r word place)
      (condition r' word place) :=
  bind (requireMark _ _) fun _ => bind h.expression fun _ => bind (requireMark _ _) fun _ =>
    pure _

/-- What may be read with more tokens left may be read with fewer. -/
theorem fewer {α : Type} {p p' : Parse α}
    (h : Linked safe (State.Room tokens depth structs) p p') :
    Linked safe (State.Room (tokens - 1) depth structs) p p' :=
  h.mono fun _ hs => ⟨Nat.lt_of_lt_of_le hs.tokens (Nat.sub_le _ _), hs.depth, hs.structs⟩

/-- A construct that begins with a keyword has taken it before anything inside is read. -/
theorem keyword {kind : Token.Kind} (hk : kind ≠ .endOfInput) {f f' : Token → Parse Node}
    (hf : ∀ t, Linked safe (State.Room (tokens - 1) depth structs) (f t) (f' t)) :
    Linked safe (fun s => s.Room tokens depth structs ∧ s.front.kind = kind)
      (one (Grammar.takeFront >>= f)) (one (Grammar.takeFront >>= f')) := by
  refine bindWith (Q := fun _ => Always)
    (take (fun s hs => ⟨State.open_of_front ?_, hs.1⟩) hf) (fun _ _ _ _ _ => trivial)
    fun _ => pure _
  rwa [hs.2]

theorem ifStatement (h : r.Linked safe r' tokens depth structs) :
    Linked safe (fun s => s.Room tokens depth structs ∧ s.front.kind = .keyword .ifKw)
      (one (ifStatement r)) (one (ifStatement r')) := by
  refine keyword (by simp) fun _ => bind (fewer (condition h _ _)) fun _ =>
    bind (singleStatement h) fun _ => bind (accept _) fun _ => ite (fun _ => ?_) fun _ => pure _
  exact bind (singleStatement h) fun _ => pure _

theorem forStart (h : r.Linked safe r' tokens depth structs) :
    Linked safe (State.Room tokens depth structs) (forStart r) (forStart r') := by
  refine bind here fun _ => bind (accept _) fun _ => ite (fun _ => pure _) fun _ =>
    bind frontKind fun _ => ite (fun _ => ?_) fun _ => ?_
  · refine bind (declaration h) fun nodes => ?_
    split
    · exact pure _
    · exact pure _
  · exact bind h.expression fun _ => bind (requireMark _ _) fun _ => pure _

theorem optionalBefore (h : r.Linked safe r' tokens depth structs) (mark : Token.Delimiter) :
    Linked safe (State.Room tokens depth structs) (optionalBefore r mark)
      (optionalBefore r' mark) :=
  bind frontKind fun _ => ite (fun _ => bind here fun _ => pure _) fun _ => h.expression

theorem forStatement (h : r.Linked safe r' tokens depth structs) :
    Linked safe (fun s => s.Room tokens depth structs ∧ s.front.kind = .keyword .forKw)
      (one (forStatement r)) (one (forStatement r')) :=
  keyword (by simp) fun _ => bind (requireMark _ _) fun _ => bind (fewer (forStart h)) fun _ =>
    bind (fewer (optionalBefore h _)) fun _ => bind (requireMark _ _) fun _ =>
    bind (fewer (optionalBefore h _)) fun _ => bind (requireMark _ _) fun _ =>
    bind (singleStatement h) fun _ => pure _

theorem whileStatement (h : r.Linked safe r' tokens depth structs) :
    Linked safe (fun s => s.Room tokens depth structs ∧ s.front.kind = .keyword .whileKw)
      (one (whileStatement r)) (one (whileStatement r')) :=
  keyword (by simp) fun _ => bind (fewer (condition h _ _)) fun _ =>
    bind (singleStatement h) fun _ => pure _

theorem doWhileStatement (h : r.Linked safe r' tokens depth structs) :
    Linked safe (fun s => s.Room tokens depth structs ∧ s.front.kind = .keyword .doKw)
      (one (doWhileStatement r)) (one (doWhileStatement r')) :=
  keyword (by simp) fun _ => bind (singleStatement h) fun _ => bind (require _ _) fun _ =>
    bind (fewer (condition h _ _)) fun _ => bind (requireMark _ _) fun _ => pure _

theorem switchStatement (h : r.Linked safe r' tokens depth structs) :
    Linked safe (fun s => s.Room tokens depth structs ∧ s.front.kind = .keyword .switchKw)
      (one (switchStatement r)) (one (switchStatement r')) :=
  keyword (by simp) fun _ => bind (fewer (condition h _ _)) fun _ =>
    bind (singleStatement h) fun _ => pure _

theorem caseLabel (h : r.Linked safe r' tokens depth structs) :
    Linked safe (State.Room tokens depth structs) (caseLabel r) (caseLabel r') :=
  bind takeFront fun _ => bind h.expression fun _ => bind (requireMark _ _) fun _ => pure _

theorem defaultLabel : Linked safe P defaultLabel defaultLabel :=
  calm <| bind takeFront fun _ => bind (requireMark _ _) fun _ => pure _

theorem label : Linked safe P label label :=
  calm <| bind takeFront fun _ => bind (requireMark _ _) fun _ => pure _

theorem returnStatement (h : r.Linked safe r' tokens depth structs) :
    Linked safe (State.Room tokens depth structs) (returnStatement r) (returnStatement r') :=
  bind takeFront fun _ => bind frontKind fun _ => ite
    (fun _ => bind (requireMark _ _) fun _ => pure _)
    fun _ => bind h.expression fun _ => bind (requireMark _ _) fun _ => pure _

theorem jump (kind : Node.Kind) (word : String) :
    Linked safe P (jump kind word) (jump kind word) :=
  calm <| bind takeFront fun _ => bind (requireMark _ _) fun _ => pure _

theorem gotoStatement : Linked safe P gotoStatement gotoStatement :=
  calm <| bind takeFront fun _ => bind (require _ _) fun _ => bind (requireMark _ _) fun _ =>
    pure _

theorem expressionStatement (h : r.Linked safe r' tokens depth structs) :
    Linked safe (State.Room tokens depth structs) (expressionStatement r)
      (expressionStatement r') :=
  bind here fun _ => bind h.expression fun _ => bind (requireMark _ _) fun _ => pure _

theorem one [Stable P] {p p' : Parse Node} (h : Linked safe P p p') :
    Linked safe P (one p) (one p') :=
  bind h fun _ => pure _

theorem labelAhead : Linked safe P labelAhead labelAhead :=
  calm <| bind frontKind fun _ => bind secondKind fun _ => pure _

theorem openStatement (h : r.Linked safe r' tokens depth structs) (kind : Token.Kind) :
    Linked safe (State.Room tokens depth structs) (openStatement r kind)
      (openStatement r' kind) :=
  bind labelAhead fun _ => ite (fun _ => one label) fun _ => ite (fun _ => declaration h) fun _ =>
    ite (fun _ => one (expressionStatement h)) fun _ => ite (fun _ => stop (by simp)) fun _ =>
    bind takeFront fun _ => pure _

theorem statementOf (h : r.Linked safe r' tokens depth structs) (kind : Token.Kind) :
    Linked safe (fun s => s.Room tokens depth structs ∧ s.front.kind = kind)
      (statementOf r kind) (statementOf r' kind) := by
  have hroom : ∀ {p p' : Parse (List Node)}, Linked safe (State.Room tokens depth structs) p p' →
      Linked safe (fun s => s.Room tokens depth structs ∧ s.front.kind = kind) p p' :=
    fun hp => hp.mono fun s hs => hs.1
  unfold Grammar.statementOf
  split
  · exact ifStatement h
  · exact forStatement h
  · exact whileStatement h
  · exact doWhileStatement h
  · exact switchStatement h
  · exact hroom (one (caseLabel h))
  · exact hroom (one defaultLabel)
  · exact hroom (one (returnStatement h))
  · exact hroom (one (jump _ _))
  · exact hroom (one (jump _ _))
  · exact hroom (one gotoStatement)
  · exact hroom (one (block h))
  · exact hroom (one inclusion)
  · exact hroom (one (macroDefinition h))
  · exact hroom (one otherDirective)
  · exact hroom (openStatement h _)

/-- A level of depth is taken before anything inside is read. -/
theorem statement (h : r.Linked safe r' tokens (depth - 1) structs) :
    Linked safe (State.Room tokens depth structs) (statement r) (statement r') :=
  oneDeeper <| bindLook fun kind => statementOf h kind

/-! ## Items -/

theorem item (h : r.Linked safe r' tokens depth structs) :
    Linked safe (State.Room tokens depth structs) (item r) (item r') :=
  bind frontKind fun _ => ite (fun _ => one inclusion) fun _ =>
    ite (fun _ => one (macroDefinition h)) fun _ => ite (fun _ => one otherDirective) fun _ =>
    ite (fun _ => declaration h) fun _ => bind takeFront fun _ => pure _

end Linked

end CSurvey.Grammar
