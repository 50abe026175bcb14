import CSurvey.Proofs.Grammar.Locality
import CSurvey.Proofs.Grammar.Sieve

/-! # Lines on their own

On a directive line the end of input and the newline are alike: a reader that comes to a result and
leaves the newline where it is comes to that result on the line alone. Only the body of a struct is
read over the newline, and then the newline is taken. -/

namespace CSurvey.Grammar

/-- The lines behind a line, from its newline on. -/
structure Below where
  newline : Token
  more : List Token
  isNewline : newline.kind = .newline

namespace Below

variable (b : Below)

/-- The newline and the tokens behind it. -/
def tokens : List Token :=
  b.newline :: b.more

/-- The second state is the first one with lines behind the line at hand. -/
structure Over (s s' : State) : Prop where
  rest : s'.rest = s.rest ++ b.tokens
  limit : s'.limit = s.limit
  depth : s'.depth = s.depth
  onLine : s.onLine = true
  onLine' : s'.onLine = true

variable {b} {s s' : State}

namespace Over

theorem isPassed (h : b.Over s s') : s'.isPassed = s.isPassed := by
  funext t
  rw [State.isPassed, State.isPassed, h.onLine, h.onLine']

theorem upcoming (h : b.Over s s') : s'.upcoming = s.upcoming ++ b.tokens := by
  have hnewline : ¬s.isPassed b.newline = true := by
    simp [State.isPassed, b.isNewline, h.onLine, Token.Kind.isComment]
  have hbelow : b.tokens.dropWhile s.isPassed = b.tokens := List.dropWhile_cons_of_neg hnewline
  rw [State.upcoming, h.isPassed, h.rest, List.dropWhile_append, hbelow]
  split
  · rename_i hnone
    rw [State.upcoming, List.isEmpty_iff.mp hnone, List.nil_append]
  · rfl

theorem front (h : b.Over s s') (hs : s.Open) : s'.front = s.front := by
  obtain ⟨t, ts, hup⟩ := List.exists_cons_of_ne_nil hs
  rw [State.front, State.front, h.upcoming, hup]
  rfl

/-- Where the line ends, the newline comes next. -/
theorem front_of_not_open (h : b.Over s s') (hs : ¬s.Open) : s'.front = b.newline := by
  have hup : s.upcoming = [] := Decidable.not_not.mp hs
  rw [State.front, h.upcoming, hup]
  rfl

theorem dropFront (h : b.Over s s') (hs : s.Open) : b.Over s.dropFront s'.dropFront := by
  refine ⟨?_, h.limit, h.depth, h.onLine, h.onLine'⟩
  obtain ⟨t, ts, hup⟩ := List.exists_cons_of_ne_nil hs
  show s'.upcoming.drop 1 = s.upcoming.drop 1 ++ b.tokens
  rw [h.upcoming, hup]
  rfl

/-- Where the line ends, the newline is taken. -/
theorem not_suffix_of_not_open (h : b.Over s s') (hs : ¬s.Open) {t : State}
    (ht : s'.dropFront.Leads t) : ¬b.tokens <:+ t.rest := by
  have hup : s.upcoming = [] := Decidable.not_not.mp hs
  have hrest : s'.dropFront.rest = b.more := by
    show s'.upcoming.drop 1 = b.more
    rw [h.upcoming, hup]
    rfl
  intro hsuffix
  have hle := Nat.le_trans hsuffix.length_le ht.length_le
  rw [hrest, tokens, List.length_cons] at hle
  omega

theorem atDepth (h : b.Over s s') (depth : Nat) :
    b.Over { s with depth } { s' with depth } :=
  ⟨h.rest, h.limit, rfl, h.onLine, h.onLine'⟩

/-- The kind of the next token is the same, or the line ends. -/
theorem front_kind (h : b.Over s s') :
    s'.front.kind = s.front.kind ∨ s.front.kind = .endOfInput ∧ s'.front.kind = .newline := by
  by_cases hs : s.Open
  · exact .inl (by rw [h.front hs])
  · exact .inr ⟨by rw [State.front_of_not_open hs]; rfl,
      by rw [h.front_of_not_open hs, b.isNewline]⟩

end Over

end Below

/-! ## Readers of lines -/

/-- If the reader comes to a result and leaves the lines behind the one at hand, it comes to that
result on the line alone, or gives up there. -/
structure Alone (b : Below) (P : State → Prop) {α : Type} (p : Parse α) : Prop where
  leads : ∀ ⦃s t : State⦄ ⦃a : α⦄, p s = .ok a t → s.Leads t
  alone : ∀ ⦃s s' t' : State⦄ ⦃a : α⦄, P s → b.Over s s' → p s' = .ok a t' →
    b.tokens <:+ t'.rest → (∃ t, p s = .ok a t ∧ b.Over t t') ∨ RunsOut (p s)

namespace Alone

variable {b : Below} {P Q : State → Prop} {α β : Type}

theorem mono {p : Parse α} (h : Alone b Q p) (hP : ∀ s, P s → Q s) : Alone b P p :=
  ⟨h.leads, fun _ _ _ _ hs => h.alone (hP _ hs)⟩

/-- What may be read anywhere on a line may be read here. -/
theorem anywhere {p : Parse α} (h : Alone b Always p) : Alone b P p :=
  h.mono fun _ _ => trivial

theorem pure (a : α) : Alone b P (pure a) where
  leads s t c hc := by
    obtain ⟨-, rfl⟩ := pure_eq_ok.mp hc
    exact .refl s
  alone s s' t' c _ hover hc _ := by
    obtain ⟨rfl, rfl⟩ := pure_eq_ok.mp hc
    exact .inl ⟨s, rfl, hover⟩

/-- What comes to no result. -/
theorem stop (f : State → Failure) : Alone b P (α := α) fun s => .error (f s) s where
  leads s t a ha := by simp at ha
  alone s s' t' a _ _ ha _ := by simp at ha

theorem failFound (cause : Token → Cause) : Alone b P (failFound cause : Parse α) := stop _

theorem fail (cause : Cause) : Alone b P (fail cause : Parse α) := stop _

theorem failAt (location : Position) (cause : Cause) :
    Alone b P (failAt location cause : Parse α) := stop _

theorem ite {c : Prop} [Decidable c] {p q : Parse α} (hp : c → Alone b P p)
    (hq : ¬c → Alone b P q) : Alone b P (if c then p else q) := by
  split
  · exact hp ‹c›
  · exact hq ‹¬c›

theorem bindThen {p : Parse α} {f : α → Parse β} (hp : Alone b P p)
    (hQ : ∀ s t a, P s → p s = .ok a t → Q t) (hf : ∀ a, Alone b Q (f a)) :
    Alone b P (p >>= f) where
  leads s t c hc := by
    obtain ⟨a, u, ha, hc⟩ := bind_eq_ok.mp hc
    exact (hp.leads ha).trans ((hf a).leads hc)
  alone s s' t' c hs hover hc ht := by
    obtain ⟨a, u', ha, hc⟩ := bind_eq_ok.mp hc
    rcases hp.alone hs hover ha (ht.trans ((hf a).leads hc).rest) with ⟨u, hu, hover'⟩ | hout
    · rw [bind_apply, hu]
      exact (hf a).alone (hQ s u a hs hu) hover' hc ht
    · rw [bind_apply]
      exact .inr (Sieve.runsOut_bind f hout)

theorem bind {p : Parse α} {f : α → Parse β} (hp : Alone b P p)
    (hf : ∀ a, Alone b Always (f a)) : Alone b P (p >>= f) :=
  bindThen hp (fun _ _ _ _ _ => trivial) hf

/-! ## Looks -/

/-- A look that takes the end of a line for the end of input. -/
theorem lookKind {f : Token.Kind → Parse β}
    (hf : ∀ k, Alone b (fun s => P s ∧ s.front.kind = k) (f k))
    (hend : f .newline = f .endOfInput) : Alone b P (frontKind >>= f) where
  leads s t c hc := (hf _).leads hc
  alone s s' t' c hs hover hc ht := by
    change f s'.front.kind s' = _ at hc
    have hkind := hover.front_kind
    rcases hkind with hkind | ⟨hnone, hline⟩
    · rw [hkind] at hc
      exact (hf _).alone ⟨hs, rfl⟩ hover hc ht
    · rw [hline, hend, ← hnone] at hc
      exact (hf _).alone ⟨hs, rfl⟩ hover hc ht

/-- A look where the end of the line shows, and is taken or comes to nothing. -/
theorem lookOver {γ : Type} {g : Token → γ} {f : γ → Parse β}
    (hf : ∀ c, Alone b (fun s => P s ∧ g s.front = c) (f c))
    (hend : ∀ s s' t' c, ¬s.Open → b.Over s s' → f (g b.newline) s' = .ok c t' →
      ¬b.tokens <:+ t'.rest) : Alone b P ((fun s => .ok (g s.front) s) >>= f) where
  leads s t c hc := (hf _).leads hc
  alone s s' t' c hs hover hc ht := by
    change f (g s'.front) s' = _ at hc
    by_cases hopen : s.Open
    · rw [hover.front hopen] at hc
      exact (hf _).alone ⟨hs, rfl⟩ hover hc ht
    · rw [hover.front_of_not_open hopen] at hc
      exact absurd ht (hend s s' t' c hopen hover hc)

/-- The place of a token that is there. -/
theorem hereAt {f : Position → Parse β} (hP : ∀ s, P s → s.Open) (hf : ∀ l, Alone b P (f l)) :
    Alone b P (here >>= f) where
  leads s t c hc := (hf _).leads hc
  alone s s' t' c hs hover hc ht := by
    change f s'.front.location s' = _ at hc
    rw [hover.front (hP s hs)] at hc
    exact (hf _).alone hs hover hc ht

/-! ## Single steps -/

/-- What is taken is on the line, or the lines behind it are not left. -/
theorem takeFront : Alone b P takeFront where
  leads s t a ha := by
    obtain ⟨-, rfl⟩ := EStateM.Result.ok.inj ha
    exact .dropFront s
  alone s s' t' a _ hover ha ht := by
    obtain ⟨rfl, rfl⟩ := EStateM.Result.ok.inj ha
    by_cases hopen : s.Open
    · exact .inl ⟨s.dropFront, by rw [Grammar.takeFront, hover.front hopen],
        hover.dropFront hopen⟩
    · exact absurd ht (hover.not_suffix_of_not_open hopen (.refl _))

theorem note (w : SkippedMember) : Alone b P (note w) where
  leads s t a ha := by
    obtain ⟨-, rfl⟩ := EStateM.Result.ok.inj ha
    exact .note w s
  alone s s' t' a _ hover ha _ := by
    obtain ⟨rfl, rfl⟩ := EStateM.Result.ok.inj ha
    exact .inl ⟨_, rfl, hover.rest, hover.limit, hover.depth, hover.onLine, hover.onLine'⟩

theorem goDeeper : Alone b P goDeeper where
  leads s t a ha := by
    unfold Grammar.goDeeper at ha
    split at ha
    · obtain ⟨-, rfl⟩ := EStateM.Result.ok.inj ha
      exact .goDeeper s
    · simp at ha
  alone s s' t' a _ hover ha _ := by
    unfold Grammar.goDeeper at ha ⊢
    split at ha
    · rename_i hroom
      obtain ⟨rfl, rfl⟩ := EStateM.Result.ok.inj ha
      rw [if_pos (by rwa [hover.depth, hover.limit] at hroom), hover.depth]
      exact .inl ⟨_, rfl, hover.atDepth _⟩
    · simp at ha

theorem oneDeeper {p : Parse α} (hp : Alone b Always p) : Alone b P (oneDeeper p) where
  leads s t a ha := by
    obtain ⟨-, u, hu, rfl⟩ := oneDeeper_eq_ok.mp ha
    exact (hp.leads hu).oneDeeper
  alone s s' t' a _ hover ha ht := by
    obtain ⟨hroom, u', hu', rfl⟩ := oneDeeper_eq_ok.mp ha
    rw [hover.depth, hover.limit] at hroom
    rw [hover.depth] at hu'
    rcases hp.alone trivial (hover.atDepth _) hu' ht with ⟨u, hu, hin⟩ | hout
    · refine .inl ⟨{ u with depth := s.depth }, oneDeeper_eq_ok.mpr ⟨hroom, u, hu, rfl⟩, ?_⟩
      rw [hover.depth]
      exact hin.atDepth _
    · right
      have hinner : RunsOut ((Grammar.goDeeper >>= fun _ => p) s) := by
        rw [bind_apply, Grammar.goDeeper, if_pos hroom]
        exact hout
      rw [Sieve.oneDeeper_apply]
      exact Sieve.runsOut_state (fun t => { t with depth := s.depth }) hinner

/-! ## Loops -/

section

variable {round : α → Parse (Turn α)}

theorem rounds_leads (hround : ∀ a, Alone b Always (round a)) {fuel : List Token} {a c : α}
    {s t : State} (h : rounds round fuel a s = .ok c t) : s.Leads t := by
  refine rounds_ok (I := fun _ u => s.Leads u) (D := fun _ u => s.Leads u) ?_ (.refl s) h
  intro c u turn v hu hv
  have huv := hu.trans ((hround c).leads hv)
  cases turn with
  | again _ => exact huv
  | done _ => exact huv

theorem rounds_runsOut {fuel : List Token} {a : α} {s : State} (h : RunsOut (round a s)) :
    RunsOut (rounds round fuel a s) := by
  cases fuel with
  | nil =>
      rw [Grammar.rounds, bind_apply]
      exact Sieve.runsOut_bind _ h
  | cons x fuel =>
      rw [Grammar.rounds, bind_apply]
      exact Sieve.runsOut_bind _ h

/-- On the line alone there are fewer rounds, so it may give up before. -/
theorem rounds (hround : ∀ a, Alone b Always (round a)) (fuel fuel' : List Token) {a c : α}
    {s s' t' : State} (hover : b.Over s s') (h : rounds round fuel' a s' = .ok c t')
    (ht : b.tokens <:+ t'.rest) :
    (∃ t, Grammar.rounds round fuel a s = .ok c t ∧ b.Over t t') ∨
      RunsOut (Grammar.rounds round fuel a s) := by
  induction h using rounds_induction generalizing fuel s with
  | done hturn =>
      refine ((hround _).alone trivial hover hturn ht).imp ?_ rounds_runsOut
      rintro ⟨u, hu, hover'⟩
      exact ⟨u, rounds_done hu fuel, hover'⟩
  | again hend hturn ih =>
      have hbelow := ht.trans (rounds_leads hround hend).rest
      rcases (hround _).alone trivial hover hturn hbelow with ⟨u, hu, hover'⟩ | hout
      · cases fuel with
        | nil =>
            right
            rw [Grammar.rounds, bind_apply, hu]
            rfl
        | cons y fuel =>
            rw [rounds_again hu]
            exact ih fuel hover'
      · exact .inr (rounds_runsOut hout)

theorem loop {value : α} (hround : ∀ a, Alone b Always (round a)) :
    Alone b P (loop round value) where
  leads _ _ _ hc := rounds_leads hround hc
  alone s s' _ _ _ hover hc ht := rounds hround s.rest s'.rest hover hc ht

end

/-! ## Tokens that are asked for -/

theorem accept {kind : Token.Kind} (hk : kind ≠ .newline ∧ kind ≠ .endOfInput) :
    Alone b P (accept kind) := by
  refine lookKind (fun _ => .ite (fun _ => bind takeFront fun _ => .pure _) fun _ => .pure _) ?_
  rw [if_neg hk.1.symm, if_neg hk.2.symm]

theorem acceptMark (mark : Token.Delimiter) :
    Alone b P (Grammar.accept (.delimiter mark)) :=
  accept ⟨by simp, by simp⟩

theorem require {kind : Token.Kind} (hk : kind ≠ .newline ∧ kind ≠ .endOfInput) (place : Place) :
    Alone b P (require kind place) := by
  refine lookKind (fun _ => .ite (fun _ => takeFront) fun _ => .failFound _) ?_
  rw [if_neg hk.1.symm, if_neg hk.2.symm]

theorem requireMark (mark : Token.Delimiter) (place : Place) :
    Alone b P (requireMark mark place) :=
  require ⟨by simp, by simp⟩ place

/-- A look at two tokens that takes the end of a line for the end of input. -/
theorem ahead {kind : Token.Kind} {c : Token.Kind → Bool} {f : Bool → Parse β}
    (hk : kind ≠ .newline ∧ kind ≠ .endOfInput) (hc : c .newline = c .endOfInput)
    (hf : ∀ found, Alone b P (f found)) : Alone b P (ahead kind c >>= f) where
  leads s t d hd := (hf _).leads hd
  alone s s' t' d hs hover hd ht := by
    have hsame : (decide (s'.front.kind = kind) && c s'.second.kind) =
        (decide (s.front.kind = kind) && c s.second.kind) := by
      by_cases hopen : s.Open
      · rw [hover.front hopen]
        rcases (hover.dropFront hopen).front_kind with hsecond | ⟨hnone, hline⟩
        · rw [show s'.second.kind = s.second.kind from hsecond]
        · rw [show s'.second.kind = _ from hline, show s.second.kind = _ from hnone, hc]
      · rw [hover.front_of_not_open hopen, State.front_of_not_open hopen, b.isNewline,
          decide_eq_false hk.1.symm, Bool.false_and]
        exact (Bool.false_and _ ▸ congrArg (· && _) (decide_eq_false hk.2.symm)).symm
    change f (decide (s'.front.kind = kind) && c s'.second.kind) s' = _ at hd
    rw [hsame] at hd
    exact (hf _).alone hs hover hd ht

theorem commaSeparated {p : Parse α} (hp : Alone b Always p) :
    Alone b P (commaSeparated p) :=
  bind (loop fun _ => bind hp fun _ => bind (acceptMark _) fun _ =>
    .ite (fun _ => .pure _) fun _ => .pure _) fun _ => .pure _

end Alone

/-- The place of a parameter is only looked at where there is one. -/
theorem parameter_eq (r : Rules) :
    parameter r = (do
      if (← frontKind).startsType then
        let location ← here
        let type ← typeName r
        let name ← parameterName
        let type ← parameterSizes r type
        pure (.texted .parameter type location name)
      else failFound .parameterExpected) := by
  funext s
  show (if s.front.kind.startsType then _ else _ : Parse Node) s =
    (if s.front.kind.startsType then _ else _ : Parse Node) s
  split
  · rfl
  · rfl

/-- A note takes nothing. -/
theorem open_of_reportPassed {tag : String} {passed : List Token} {s t : State} {a : Unit}
    (h : reportPassed tag passed s = .ok a t) (hs : s.Open) : t.Open := by
  unfold reportPassed at h
  cases hlast : passed.getLast? with
  | none =>
      rw [hlast] at h
      obtain ⟨-, rfl⟩ := pure_eq_ok.mp h
      exact hs
  | some first =>
      rw [hlast] at h
      obtain ⟨-, rfl⟩ := EStateM.Result.ok.inj h
      exact hs

/-- Rules that come to the same on a line alone. -/
structure Rules.Alone (b : Below) (r : Rules) : Prop where
  expression : Grammar.Alone b Always r.expression
  conditional : Grammar.Alone b Always r.conditional
  unary : Grammar.Alone b Always r.unary
  structSpecifier : Grammar.Alone b Always r.structSpecifier

namespace Alone

variable {b : Below} {P : State → Prop} {α : Type} {r : Rules}

/-! ## Types -/

theorem lineTexts : Alone b P lineTexts := by
  refine bind (loop fun found => lookKind (fun kind => ?_) rfl) fun _ => .pure _
  split
  · exact .pure _
  · exact .pure _
  · exact bind takeFront fun _ => .pure _

theorem typeModifiers : Alone b P typeModifiers :=
  bind (loop fun _ => lookKind
    (fun _ => .ite (fun _ => bind takeFront fun _ => .pure _) fun _ => .pure _) rfl)
    fun _ => .pure _

theorem typeSpecifier (h : r.Alone b) : Alone b P (typeSpecifier r) :=
  bind typeModifiers fun _ => lookKind (fun _ =>
    .ite (fun _ => bind takeFront fun _ => .pure _) fun _ =>
    .ite (fun _ => bind h.structSpecifier.anywhere fun _ => .pure _) fun _ =>
    .ite (fun _ => .failFound _) fun _ => .pure _) rfl

theorem pointerStars (type : String) : Alone b P (pointerStars type) :=
  loop fun _ => bind (accept ⟨by simp, by simp⟩) fun _ =>
    .ite (fun _ => .pure _) fun _ => .pure _

theorem typeName (h : r.Alone b) : Alone b P (typeName r) :=
  bind (typeSpecifier h) fun _ => pointerStars _

/-! ## Declarators -/

theorem skipQualifiers : Alone b P skipQualifiers := by
  refine loop fun _ => lookKind (fun kind => ?_) rfl
  split
  · exact bind takeFront fun _ => .pure _
  · exact bind takeFront fun _ => .pure _
  · exact .pure _

theorem pointers : Alone b P pointers :=
  loop fun _ => bind (accept ⟨by simp, by simp⟩) fun _ =>
    .ite (fun _ => bind skipQualifiers fun _ => .pure _) fun _ => .pure _

theorem arraySize (h : r.Alone b) : Alone b P (arraySize r) :=
  bind takeFront fun _ => bind (acceptMark _) fun _ => .ite (fun _ => .pure _) fun _ =>
    bind h.expression fun _ => bind (requireMark _ _) fun _ => .pure _

theorem arraySizes (h : r.Alone b) : Alone b P (arraySizes r) :=
  bind (loop fun _ => lookKind (fun _ =>
    .ite (fun _ => bind (arraySize h) fun _ => .pure _) fun _ => .pure _) rfl) fun _ => .pure _

theorem parameterSizes (h : r.Alone b) (type : String) : Alone b P (parameterSizes r type) := by
  refine loop fun type => bind (acceptMark _) fun _ => .ite (fun _ => ?_) fun _ => .pure _
  refine lookKind (fun _ => .ite (fun _ => ?_) fun _ => ?_) rfl
  · exact bind (.pure _) fun _ => bind (requireMark _ _) fun _ => .pure _
  · exact bind h.expression.anywhere fun _ => bind (.pure _) fun _ =>
      bind (requireMark _ _) fun _ => .pure _

theorem parameterName : Alone b P parameterName :=
  lookKind (fun _ => .ite (fun _ => bind takeFront fun _ => .pure _) fun _ => .pure _) rfl

theorem parameter (h : r.Alone b) : Alone b P (parameter r) := by
  rw [parameter_eq]
  refine lookKind (fun kind => .ite (fun hk => hereAt (fun s hs => ?_) fun _ => ?_)
    fun _ => .failFound _) rfl
  · exact State.open_of_kind hs.2 (by rintro rfl; contradiction)
  · exact bind (typeName h) fun _ => bind parameterName fun _ =>
      bind (parameterSizes h _) fun _ => .pure _

theorem ellipsis (hP : ∀ s, P s → s.Open) : Alone b P ellipsis :=
  hereAt hP fun _ => bind (requireMark _ _) fun _ => bind (requireMark _ _) fun _ =>
    bind (requireMark _ _) fun _ => .pure _

theorem parameters (h : r.Alone b) : Alone b P (parameters r) := by
  refine bind (loop fun _ => lookKind (fun kind => .ite (fun hk => ?_) fun _ => ?_) rfl)
    fun _ => .pure _
  · exact bind (ellipsis fun s hs => State.open_of_kind (hs.2.trans hk) (by simp)) fun _ => .pure _
  · exact bind (parameter h) fun _ => bind (acceptMark _) fun _ =>
      .ite (fun _ => .pure _) fun _ => .pure _

theorem parameterList (h : r.Alone b) : Alone b P (parameterList r) := by
  rw [parameterList_eq]
  refine lookKind (fun _ => .ite (fun _ => .pure _) fun _ => ?_) rfl
  exact ahead ⟨by simp, by simp⟩ rfl fun _ =>
    .ite (fun _ => bind takeFront fun _ => .pure _) fun _ => parameters h

theorem declarator (h : r.Alone b) : Alone b P (declarator r) :=
  bind pointers fun _ => lookKind (fun _ => .ite
    (fun _ => bind takeFront fun _ => bind (acceptMark _) fun _ => .ite
      (fun _ => bind (parameterList h) fun _ => bind (requireMark _ _) fun _ => .pure _)
      fun _ => bind (arraySizes h) fun _ => .pure _)
    fun _ => .failFound _) rfl

theorem structMembers (h : r.Alone b) (hP : ∀ s, P s → s.Open) : Alone b P (structMembers r) :=
  hereAt hP fun _ => bind (typeSpecifier h) fun _ => bind (commaSeparated (declarator h)) fun _ =>
    bind (requireMark _ _) fun _ => .pure _

/-! ## Structs -/

theorem reportPassed (tag : String) (passed : List Token) :
    Alone b P (reportPassed tag passed) := by
  unfold Grammar.reportPassed
  split
  · exact .pure _
  · exact .note _

theorem passBraces (passed : List Token) : Alone b P (passBraces passed) := by
  refine bind (loop fun (depth, passed) => bind takeFront fun token => ?_) fun _ => .pure _
  split
  · exact .pure _
  · exact .pure _
  · exact .ite (fun _ => .pure _) fun _ => .pure _
  · exact .ite (fun _ => .pure _) fun _ => .pure _

/-- Where the line ends inside the body of a struct, its newline is taken. -/
theorem structBody (h : r.Alone b) (tag : String) : Alone b P (structBody r tag) := by
  refine bind (loop fun body => lookOver (g := Token.kind) (fun kind => ?_) ?_) fun _ =>
    bind (reportPassed _ _) fun _ => .pure _
  · refine .ite (fun _ => .pure _) fun _ => .ite (fun _ => .fail _) fun _ =>
      .ite (fun hk => ?_) fun _ => .ite (fun _ => ?_) fun _ => ?_
    · refine bindThen (Q := State.Open) (reportPassed _ _) (fun s t _ hs ht => ?_) fun _ =>
        bind (structMembers h fun _ hs => hs) fun _ => .pure _
      exact open_of_reportPassed ht (State.open_of_kind hs.2 (by rintro rfl; contradiction))
    · exact bind (passBraces _) fun _ => .pure _
    · exact bind takeFront fun _ => .pure _
  · intro s s' t' turn hopen hover hturn
    rw [b.isNewline] at hturn
    obtain ⟨token, u, hu, hend⟩ := bind_eq_ok.mp hturn
    obtain ⟨-, rfl⟩ := EStateM.Result.ok.inj hu
    obtain ⟨-, rfl⟩ := pure_eq_ok.mp hend
    exact hover.not_suffix_of_not_open hopen (.refl _)

theorem structSpecifier (h : r.Alone b) : Alone b P (structSpecifier r) :=
  bind takeFront fun _ => lookKind (fun _ => .ite
    (fun _ => bind takeFront fun _ => bind (acceptMark _) fun _ => .ite
      (fun _ => bind (structBody h _) fun _ => bind (requireMark _ _) fun _ => .pure _)
      fun _ => .pure _)
    fun _ => .failFound _) rfl

/-! ## Expressions -/

theorem moreStrings (text : String) : Alone b P (moreStrings text) :=
  loop fun _ => lookKind
    (fun _ => .ite (fun _ => bind takeFront fun _ => .pure _) fun _ => .pure _) rfl

theorem primary (h : r.Alone b) : Alone b P (primary r) := by
  refine lookOver (g := fun token => token) (fun token => ?_) fun s s' t' n _ _ hn => ?_
  · split
    · refine bind takeFront fun _ => ?_
      split
      · exact .pure _
      · exact .failAt _ _
    · exact bind takeFront fun _ => bind (moreStrings _) fun _ => .pure _
    · exact bind takeFront fun _ => .pure _
    · exact bind takeFront fun _ => .pure _
    · exact bind takeFront fun _ => bind h.expression fun _ =>
        bind (requireMark _ _) fun _ => .pure _
    · exact .failFound _
  · rw [b.isNewline] at hn
    cases hn

theorem arguments (h : r.Alone b) : Alone b P (arguments r) :=
  lookKind (fun _ => .ite (fun _ => .pure _) fun _ => commaSeparated h.expression) rfl

theorem memberOf (kind : Node.Kind) (operand : Node) : Alone b P (memberOf kind operand) :=
  bind takeFront fun _ => bind (require ⟨by simp, by simp⟩ _) fun _ => .pure _

theorem continued (h : r.Alone b) (operand : Node) : Alone b P (continued r operand) := by
  refine lookKind (fun kind => ?_) rfl
  split
  · exact bind takeFront fun _ => bind h.expression fun _ =>
      bind (requireMark _ _) fun _ => .pure _
  · exact bind takeFront fun _ => bind (arguments h) fun _ =>
      bind (requireMark _ _) fun _ => .pure _
  · exact memberOf _ _
  · exact memberOf _ _
  · exact bind takeFront fun _ => .pure _

theorem operand (h : r.Alone b) : Alone b P (operand r) :=
  bind (primary h) fun _ => loop fun _ => lookKind (fun _ => .ite
    (fun _ => bind goDeeper fun _ => bind (continued h _) fun _ => .pure _) fun _ => .pure _) rfl

theorem sizeOf (h : r.Alone b) : Alone b P (sizeOf r) := by
  refine bind takeFront fun keyword => ?_
  rw [Repeats.typeInParens_eq]
  refine ahead ⟨by simp, by simp⟩ rfl fun _ => .ite (fun _ => ?_) fun _ => ?_
  · exact bind takeFront fun _ => bind (typeName h) fun _ => bind (requireMark _ _) fun _ => .pure _
  · exact bind (oneDeeper h.unary) fun _ => .pure _

theorem cast (h : r.Alone b) : Alone b P (cast r) :=
  bind takeFront fun _ => bind (typeName h) fun _ => bind (requireMark _ _) fun _ =>
    bind (oneDeeper h.unary) fun _ => .pure _

theorem unary (h : r.Alone b) : Alone b P (unary r) := by
  refine lookKind (fun kind => ?_) rfl
  split
  · refine .ite (fun _ => ?_) fun _ => .ite (fun _ => ?_) fun _ => operand h
    · exact bind takeFront fun _ => bind (oneDeeper h.unary) fun _ => .pure _
    · exact bind takeFront fun _ => bind (operand h) fun _ => .pure _
  · exact sizeOf h
  · rw [Repeats.typeInParens_eq]
    exact ahead ⟨by simp, by simp⟩ rfl fun _ => .ite (fun _ => cast h) fun _ => operand h

theorem chain (level : Nat) {operand : Parse Node} (h : Alone b Always operand) :
    Alone b Always (chain level operand) :=
  bind h fun _ => loop fun _ => lookKind (fun _ => .ite
    (fun _ => bind goDeeper fun _ => bind takeFront fun _ => bind h fun _ => .pure _)
    fun _ => .pure _) rfl

theorem binary (h : r.Alone b) (level : Nat) : Alone b Always (binary r level) := by
  induction level with
  | zero => exact unary h
  | succ level ih => exact chain _ ih

theorem conditional (h : r.Alone b) : Alone b P (conditional r) :=
  bind (binary h 10).anywhere fun _ => lookKind (fun _ => .ite
    (fun _ => bind takeFront fun _ => bind h.expression fun _ => bind (requireMark _ _) fun _ =>
      bind (oneDeeper h.conditional) fun _ => .pure _)
    fun _ => .pure _) rfl

theorem expression (h : r.Alone b) : Alone b P (expression r) :=
  oneDeeper <| bind (conditional h) fun _ => lookKind (fun _ => .ite
    (fun _ => bind takeFront fun _ => bind h.expression fun _ => .pure _) fun _ => .pure _) rfl

end Alone

/-- The rules of the grammar come to the same on a line alone, at any number of levels. -/
theorem Rules.level_alone (b : Below) (levels : Nat) : (Rules.level levels).Alone b := by
  induction levels with
  | zero => exact ⟨.fail _, .fail _, .fail _, .fail _⟩
  | succ levels ih => exact ⟨.expression ih, .conditional ih, .unary ih, .structSpecifier ih⟩

namespace Alone

variable {b : Below} {P : State → Prop} {α : Type} {r : Rules}

/-! ## Directive lines -/

/-- The line mode is for the line on its own what it is in front of other lines. -/
theorem onDirectiveLine {p : Parse α} (hp : Alone b Always p) {s t : State} {line : List Token}
    {a : α} (h : onDirectiveLine p { s with rest := line ++ b.tokens } = .ok a t)
    (ht : b.tokens <:+ t.rest) :
    (∃ t', Grammar.onDirectiveLine p { s with rest := line } = .ok a t') ∨
      RunsOut (Grammar.onDirectiveLine p { s with rest := line }) := by
  obtain ⟨u, hu, rfl⟩ := onDirectiveLine_eq_ok.mp h
  let s' : State := { s with rest := line, onLine := true }
  have hover : b.Over s' { s with rest := line ++ b.tokens, onLine := true } :=
    ⟨rfl, rfl, rfl, rfl, rfl⟩
  rcases hp.alone trivial hover hu ht with ⟨v, hv, -⟩ | hout
  · exact .inl ⟨_, onDirectiveLine_eq_ok.mpr ⟨v, hv, rfl⟩⟩
  · exact .inr (Sieve.runsOut_state (fun t => { t with onLine := s.onLine }) hout)

theorem headerName : Alone b P headerName := by
  refine bind (loop fun name => lookKind (fun kind => ?_) rfl) fun name =>
    .ite (fun _ => .fail _) fun _ => bind takeFront fun _ => .pure _
  split
  · exact .pure _
  · exact .failFound _
  · exact .failFound _
  · exact bind takeFront fun _ => .pure _

theorem inclusionTarget : Alone b P inclusionTarget := by
  refine lookKind (fun kind => ?_) rfl
  split
  · exact bind takeFront fun _ => .pure _
  · exact bind takeFront fun _ => headerName
  · exact .failFound _

theorem macroValue (h : r.Alone b) : Alone b P (macroValue r) := by
  refine lookKind (fun kind => .ite (fun _ => ?_) fun _ => .ite (fun _ => .pure _) fun hk => ?_) rfl
  · exact bind h.expression.anywhere fun _ => .pure _
  · simp only [Bool.or_eq_true, decide_eq_true_eq, not_or] at hk
    exact hereAt (fun s hs => State.open_of_kind hs.2 hk.2) fun _ =>
      bind lineTexts fun _ => .pure _

end Alone

end CSurvey.Grammar
