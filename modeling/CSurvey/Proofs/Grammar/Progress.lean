import CSurvey.Proofs.Grammar.Readers

/-! # Tokens are taken

Every item, and every round of a loop that asks for another one, takes at least one token. -/

namespace CSurvey.Grammar

/-- Where the reader starts as in `P` and its result is as in `Q`, at least one token is taken. -/
def Advances {α : Type} (P : State → Prop) (p : Parse α) (Q : α → Prop) : Prop :=
  ∀ ⦃s t : State⦄ ⦃a : α⦄, P s → p s = .ok a t → Q a → t.rest.length < s.rest.length

/-- Any start, or any result. -/
def Always {α : Type} (_ : α) : Prop := True

/-- Another round is asked for, or the result is as in `Q`. -/
def Turn.Asks {α : Type} (Q : α → Prop) : Turn α → Prop
  | .again _ => True
  | .done a => Q a

/-- The state stands before a token that counts, or at the end. -/
def State.Settled (s : State) : Prop :=
  s.upcoming = s.rest

/-- A newline stands before the marker of a directive line that is kept as it stands. The words of
the line are looked for where newlines count, so that they end before the marker. -/
def State.MissesLine (s : State) : Prop :=
  ({ s with onLine := true } : State).front.kind = .newline ∧
    s.front.kind.isOtherDirective = true

instance : DecidablePred State.MissesLine := fun _ => inferInstanceAs (Decidable (_ ∧ _))

/-- The token that counts next is of the given kind, and it is no marker that is missed. -/
def State.At (kind : Token.Kind) (s : State) : Prop :=
  ¬s.MissesLine ∧ s.front.kind = kind

/-- A token that counts is left. -/
def State.Open (s : State) : Prop :=
  s.upcoming ≠ []

theorem State.open_of_front {s : State} (h : s.front.kind ≠ .endOfInput) : s.Open := by
  intro hu
  simp [State.front, hu, Token.endOfInput] at h

theorem State.settled_passTrivia (s : State) : s.passTrivia.Settled :=
  s.upcoming_passTrivia

/-! ## Newlines before directive lines -/

/-- What is passed over where newlines count is passed over elsewhere. -/
theorem State.upcoming_eq_dropWhile (s : State) :
    s.upcoming = ({ s with onLine := true } : State).upcoming.dropWhile s.isPassed := by
  show s.rest.dropWhile s.isPassed =
    (s.rest.dropWhile ({ s with onLine := true } : State).isPassed).dropWhile s.isPassed
  have hpassed : ∀ t, ({ s with onLine := true } : State).isPassed t = true →
      s.isPassed t = true := by
    intro t ht
    simp only [State.isPassed, Bool.not_true, Bool.and_false, Bool.or_false] at ht
    simp [State.isPassed, ht]
  generalize ({ s with onLine := true } : State).isPassed = counts at hpassed ⊢
  induction s.rest with
  | nil => rfl
  | cons t ts ih =>
      cases ht : counts t with
      | true => rw [List.dropWhile_cons_of_pos (hpassed t ht), ih, List.dropWhile_cons_of_pos ht]
      | false => rw [List.dropWhile_cons_of_neg (p := counts) (by simp [ht])]

/-- Where no newline stands next, it does not matter whether newlines count. -/
theorem State.front_onLine {s : State}
    (h : ({ s with onLine := true } : State).front.kind ≠ .newline) :
    ({ s with onLine := true } : State).front = s.front := by
  have hup := s.upcoming_eq_dropWhile
  cases hline : ({ s with onLine := true } : State).upcoming with
  | nil =>
      rw [hline] at hup
      rw [State.front, State.front, hline, hup]
      rfl
  | cons t ts =>
      have hcounts := State.isPassed_of_upcoming_cons hline
      rw [State.front, hline] at h
      have hpassed : s.isPassed t = false := by
        simp_all [State.isPassed]
      rw [hline, List.dropWhile_cons_of_neg (by simp [hpassed])] at hup
      rw [State.front, State.front, hline, hup]

theorem Token.Kind.isOtherDirective_iff {kind : Token.Kind} :
    kind.isOtherDirective = true ↔ kind.isDirective = true ∧ kind ≠ .directive .inclusion ∧
      kind ≠ .directive .definition := by
  cases kind with
  | directive marker => cases marker <;> decide
  | _ => simp [Token.Kind.isOtherDirective, Token.Kind.isDirective]

/-- Where nothing is passed over, no marker is missed. -/
theorem State.Settled.not_missesLine {s : State} (h : s.Settled) : ¬s.MissesLine := by
  rintro ⟨hnewline, hdirective⟩
  cases hrest : s.rest with
  | nil =>
      simp [State.front, State.upcoming, hrest, Token.endOfInput] at hnewline
  | cons t ts =>
      have hup : s.upcoming = t :: ts := h.trans hrest
      have hpassed := State.isPassed_of_upcoming_cons hup
      have hline : ({ s with onLine := true } : State).upcoming = t :: ts := by
        have hcounts : ({ s with onLine := true } : State).isPassed t = false := by
          simp_all [State.isPassed]
        show s.rest.dropWhile ({ s with onLine := true } : State).isPassed = _
        generalize ({ s with onLine := true } : State).isPassed = passed at hcounts ⊢
        rw [hrest, List.dropWhile_cons_of_neg (by simp [hcounts])]
      rw [State.front, hline] at hnewline
      rw [State.front, hup] at hdirective
      change t.kind = .newline at hnewline
      change t.kind.isOtherDirective = true at hdirective
      rw [hnewline] at hdirective
      contradiction

/-! ## Tokens that are taken -/

theorem State.Open.length_dropFront {s : State} (h : s.Open) :
    s.dropFront.rest.length < s.rest.length := by
  have hpos := List.length_pos_iff.mpr h
  have hle := s.length_upcoming_le
  show (s.upcoming.drop 1).length < s.rest.length
  rw [List.length_drop]
  omega

namespace Advances

variable {α β : Type} {P R : State → Prop} {Q : β → Prop} {r : Rules}

/-! ## Composed readers -/

theorem mono {p : Parse β} (hp : Advances R p Q) (h : ∀ s, P s → R s) : Advances P p Q :=
  fun _ _ _ hs ha hQ => hp (h _ hs) ha hQ

/-- The first part takes a token whatever it comes to. -/
theorem bindLeft {p : Parse α} {f : α → Parse β} (hp : Advances P p Always)
    (hf : ∀ a, Composed true true (f a)) : Advances P (p >>= f) Q := by
  intro s t b hs hb _
  obtain ⟨a, u, ha, hb⟩ := bind_eq_ok.mp hb
  exact Nat.lt_of_le_of_lt ((hf a).leads hb).length_le (hp hs ha trivial)

/-- The second part takes a token. -/
theorem bindRight {p : Parse α} {f : α → Parse β} (hp : Composed true true p)
    (hf : ∀ a, Advances Always (f a) Q) : Advances P (p >>= f) Q := by
  intro s t b _ hb hQ
  obtain ⟨a, u, ha, hb⟩ := bind_eq_ok.mp hb
  exact Nat.lt_of_lt_of_le (hf a trivial hb hQ) (hp.leads ha).length_le

/-- A look at the state leaves it as it is. -/
theorem bindLook {g : State → α} {f : α → Parse β}
    (hf : ∀ a, Advances (fun s => P s ∧ g s = a) (f a) Q) :
    Advances P ((fun s => .ok (g s) s) >>= f) Q := by
  intro s t b hs hb hQ
  obtain ⟨a, u, ha, hb⟩ := bind_eq_ok.mp hb
  obtain ⟨rfl, rfl⟩ := EStateM.Result.ok.inj ha
  exact hf _ ⟨hs, rfl⟩ hb hQ

/-- A part of which some results show that it has taken a token. -/
theorem bindEither {p : Parse α} {f : α → Parse β} {R : α → Prop} [DecidablePred R]
    (hp : Advances P p R) (hc : Composed true true p) (hyes : ∀ a, R a → Composed true true (f a))
    (hno : ∀ a, ¬R a → Advances Always (f a) Q) : Advances P (p >>= f) Q := by
  intro s t b hs hb hQ
  obtain ⟨a, u, ha, hb⟩ := bind_eq_ok.mp hb
  by_cases hR : R a
  · exact Nat.lt_of_le_of_lt ((hyes a hR).leads hb).length_le (hp hs ha hR)
  · exact Nat.lt_of_lt_of_le (hno a hR trivial hb hQ) (hc.leads ha).length_le

theorem ite {c : Prop} [Decidable c] {p q : Parse β} (hp : c → Advances P p Q)
    (hq : ¬c → Advances P q Q) : Advances P (if c then p else q) Q := by
  split
  · exact hp ‹c›
  · exact hq ‹¬c›

/-- A result that need not have taken a token. -/
theorem pure {b : β} (h : ¬Q b) : Advances P (pure b) Q := by
  intro s t a _ ha hQ
  obtain ⟨rfl, -⟩ := pure_eq_ok.mp ha
  exact absurd hQ h

theorem stop {f : State → Failure} : Advances P (fun s => .error (f s) s) Q := by
  intro s t a _ ha
  simp at ha

theorem oneDeeper {p : Parse β} (hp : Advances R p Q)
    (h : ∀ s : State, P s → R { s with depth := s.depth + 1 }) : Advances P (oneDeeper p) Q := by
  intro s t a hs ha hQ
  obtain ⟨-, u, hu, rfl⟩ := oneDeeper_eq_ok.mp ha
  have hin := hp (h s hs) hu hQ
  exact hin

theorem onDirectiveLine {p : Parse β} (hp : Advances R p Q)
    (h : ∀ s : State, P s → R { s with onLine := true }) :
    Advances P (onDirectiveLine p) Q := by
  intro s t a hs ha hQ
  obtain ⟨u, hu, rfl⟩ := onDirectiveLine_eq_ok.mp ha
  have hin := hp (h s hs) hu hQ
  exact hin

/-- Going deeper keeps the place among the tokens. -/
theorem deeper {f : Unit → Parse β} (hP : ∀ s : State, P s → R { s with depth := s.depth + 1 })
    (hf : ∀ u, Advances R (f u) Q) : Advances P (goDeeper >>= f) Q := by
  intro s t b hs hb hQ
  obtain ⟨a, u, ha, hb⟩ := bind_eq_ok.mp hb
  unfold goDeeper at ha
  split at ha
  · obtain ⟨-, rfl⟩ := EStateM.Result.ok.inj ha
    have hlt := hf a (hP s hs) hb hQ
    exact hlt
  · simp at ha

/-- Behind the comments handed out stands a token that counts. -/
theorem afterComments {f : List Node → Parse β}
    (hf : ∀ comments, Advances State.Settled (f comments) Q) :
    Advances P (takeComments >>= f) Q := by
  intro s t b _ hb hQ
  obtain ⟨a, u, ha, hb⟩ := bind_eq_ok.mp hb
  obtain ⟨-, rfl⟩ := EStateM.Result.ok.inj ha
  have hsettled : State.Settled { s.passTrivia with comments := [] } := s.settled_passTrivia
  exact Nat.lt_of_lt_of_le (hf a hsettled hb hQ) s.length_upcoming_le

/-- A loop of which every round but the last takes a token, and the last one where the result is
as in `Q`. -/
theorem loop {round : β → Parse (Turn β)} {value : β}
    (hround : ∀ b, Advances Always (round b) (Turn.Asks Q)) :
    Advances P (loop round value) Q := by
  intro s t a _ ha hQ
  refine loop_ok (I := fun _ u => u.rest.length ≤ s.rest.length)
    (D := fun b u => Q b → u.rest.length < s.rest.length) ?_ (Nat.le_refl _) ha hQ
  intro b u turn v hu hv
  cases turn with
  | again c =>
      exact Nat.le_trans (Nat.le_of_lt (hround b trivial hv trivial)) hu
  | done c =>
      exact fun hQ => Nat.lt_of_lt_of_le (hround b trivial hv hQ) hu

/-- A loop whose first round takes a token. -/
theorem loopFirst {round : β → Parse (Turn β)} {value : β} (hc : ∀ b, Composed true true (round b))
    (hfirst : Advances P (round value) Always) : Advances P (Grammar.loop round value) Q := by
  intro s t a hs ha _
  have hlater : ∀ {fuel u b}, rounds round fuel b u = .ok a t →
      t.rest.length ≤ u.rest.length := by
    intro fuel u b h
    refine rounds_ok (I := fun _ v => v.rest.length ≤ u.rest.length)
      (D := fun _ v => v.rest.length ≤ u.rest.length) ?_ (Nat.le_refl _) h
    intro c v turn w hv hw
    have hvw := Nat.le_trans ((hc c).leads hw).length_le hv
    cases turn with
    | again _ => exact hvw
    | done _ => exact hvw
  obtain ⟨fuel, ha⟩ : ∃ fuel, rounds round fuel value s = .ok a t := ⟨s.rest, ha⟩
  induction ha using rounds_induction with
  | done hturn => exact hfirst hs hturn trivial
  | again hend hturn _ => exact Nat.lt_of_le_of_lt (hlater hend) (hfirst hs hturn trivial)

/-! ## Single steps -/

theorem takeFront : Advances State.Open takeFront Always := by
  intro s t a hs ha _
  obtain ⟨-, rfl⟩ := EStateM.Result.ok.inj ha
  exact hs.length_dropFront

/-- A token of a known kind is taken. -/
theorem takeKind {kind : Token.Kind} (hk : kind ≠ .endOfInput) :
    Advances (fun s => P s ∧ s.front.kind = kind) Grammar.takeFront Always :=
  takeFront.mono fun _ hs => State.open_of_front (by rwa [hs.2])

/-- A token that is not the end has been taken. -/
theorem takeInner : Advances P Grammar.takeFront fun t => t.kind ≠ .endOfInput := by
  intro s t a _ ha hkind
  obtain ⟨rfl, rfl⟩ := EStateM.Result.ok.inj ha
  exact (State.open_of_front hkind).length_dropFront

theorem require {kind : Token.Kind} (hk : kind ≠ .endOfInput) (place : Place) :
    Advances P (require kind place) Always :=
  bindLook fun _ => ite (fun h => takeKind (by rwa [h])) fun _ => stop

theorem requireMark (mark : Token.Delimiter) (place : Place) :
    Advances P (requireMark mark place) Always :=
  require (by simp) place

theorem accept {kind : Token.Kind} (hk : kind ≠ .endOfInput) :
    Advances P (accept kind) (· = true) :=
  bindLook fun _ => ite (fun h => bindLeft (takeKind (by rwa [h])) fun _ => .pure _)
    fun _ => pure (by simp)

/-- Where the given token is not accepted, the reader goes on. -/
theorem bindAccept {kind : Token.Kind} {f : Bool → Parse β} (hk : kind ≠ .endOfInput)
    (hyes : Composed true true (f true)) (hno : Advances Always (f false) Q) :
    Advances P (Grammar.accept kind >>= f) Q :=
  bindEither (accept hk) (.accept kind) (by rintro _ rfl; exact hyes)
    (by intro a ha; rwa [Bool.eq_false_iff.mpr ha])

theorem ofOpens {q : Parse α} {p : Parse β} (h : Opens true true q p) (hq : Advances P q Always) :
    Advances P p Q := by
  obtain ⟨f, rfl, hf⟩ := h
  exact bindLeft hq hf

/-- A construct that begins with a token at hand. -/
theorem ofTakes {p : Parse β} (h : Opens true true Grammar.takeFront p)
    (hP : ∀ s, P s → s.Open) : Advances P p Q :=
  ofOpens h (takeFront.mono hP)

theorem one {p : Parse Node} {Q : List Node → Prop} (h : Advances P p Always) :
    Advances P (Grammar.one p) Q :=
  bindLeft h fun _ => .pure _

/-! ## Declarations -/

theorem block (hr : r.Composed) : Advances P (block r) Always :=
  ofOpens (Composed.opens_block hr) (requireMark _ _)

/-- A declaration that a function body closes has taken the body's braces. -/
theorem declaredNames (hr : r.Composed) (location : Position) (type : TypeSpecifier)
    (body : Option Node) :
    Advances P (declaredNames r location type body) fun names => names.closed = true := by
  refine loop fun names => bindRight (.relax (.declarator hr)) fun d => bindRight .frontKind
    fun kind => ite (fun _ => ?_) fun _ => ?_
  · exact bindLeft (block hr) fun _ => .pure _
  · exact bindRight (.relax (.declared hr _ _ _ _)) fun node =>
      bindAccept (by simp) (.pure _) (pure (by simp [Turn.Asks]))

theorem declaration (hr : r.Composed) : Advances P (declaration r) Always := by
  refine bindRight .here fun location => bindRight (.relax (.typeSpecifier hr)) fun type =>
    bindAccept (by simp) (.pure _) ?_
  refine bindEither (R := fun names => names.closed = true) (declaredNames hr _ _ _)
    (.declaredNames hr _ _ _) (fun names h => ?_) fun names h => ?_
  · exact .ite (.pure _) (.bind (.requireMark _ _) fun _ => .pure _)
  · exact ite (fun h' => absurd h' h) fun _ => bindLeft (requireMark _ _) fun _ => .pure _

/-! ## Structs -/

theorem structMembers (hr : r.Composed) : Advances P (structMembers r) Always :=
  bindRight .here fun _ => bindRight (.relax (.typeSpecifier hr)) fun _ =>
    bindRight (.commaSeparated (.relax (.declarator hr))) fun _ =>
    bindLeft (requireMark _ _) fun _ => .pure _

theorem passBraces (passed : List Token) : Advances State.Open (passBraces passed) Always := by
  refine bindLeft (loopFirst (fun (depth, passed) => .bind .takeFront fun token => ?_)
    (bindLeft takeFront fun token => ?_)) fun _ => .pure _
  all_goals
    split
    · exact .pure _
    · exact .pure _
    · exact .ite (.pure _) (.pure _)
    · exact .ite (.pure _) (.pure _)

/-! ## Expressions -/

theorem continued (hr : r.Composed) (operand : Node) :
    Advances (fun s => continuesOperand s.front.kind = true) (continued r operand) Always := by
  refine bindLook fun kind => ?_
  split
  · exact bindLeft (takeKind (by simp)) fun _ => .bind (.relax hr.expression) fun _ =>
      .bind (.requireMark _ _) fun _ => .pure _
  · exact bindLeft (takeKind (by simp)) fun _ => .bind (.relax (.arguments hr)) fun _ =>
      .bind (.requireMark _ _) fun _ => .pure _
  · exact ofOpens (Composed.opens_memberOf _ _) (takeKind (by simp))
  · exact ofOpens (Composed.opens_memberOf _ _) (takeKind (by simp))
  · refine bindLeft (takeFront.mono fun s hs => State.open_of_front fun hend => ?_) fun _ => .pure _
    rw [hend] at hs
    exact absurd hs.1 (by decide)

theorem primary (hr : r.Composed) : Advances P (primary r) Always := by
  refine bindLook fun token => ?_
  have htake : ∀ {f : Token → Parse Node}, token.kind ≠ .endOfInput →
      (∀ a, Composed true true (f a)) →
      Advances (fun s => P s ∧ s.front = token) (Grammar.takeFront >>= f) Always := fun hk hf =>
    bindLeft (takeFront.mono fun s hs => State.open_of_front (by rwa [hs.2])) hf
  split
  · rename_i hk
    refine htake (by simp [hk]) fun _ => ?_
    split
    · exact .pure _
    · exact .failAt _ _
  · rename_i hk
    exact htake (by simp [hk]) fun _ => .bind (.moreStrings _) fun _ => .pure _
  · rename_i hk
    exact htake (by simp [hk]) fun _ => .pure _
  · rename_i hk
    exact htake (by simp [hk]) fun _ => .pure _
  · rename_i hk
    exact htake (by simp [hk]) fun _ => .bind (.relax hr.expression) fun _ =>
      .bind (.requireMark _ _) fun _ => .pure _
  · exact stop

theorem operand (hr : r.Composed) : Advances P (operand r) Always :=
  ofOpens (Composed.opens_operand hr).toTrue (primary hr)

theorem unary (hr : r.Composed) : Advances P (unary r) Always := by
  refine bindLook fun kind => ?_
  split
  · refine ite (fun _ => ?_) fun _ => ite (fun _ => ?_) fun _ => operand hr
    · exact bindLeft (takeKind (by simp)) fun _ =>
        .bind (.oneDeeper (.relax hr.unary)) fun _ => .pure _
    · exact bindLeft (takeKind (by simp)) fun _ => .bind (.relax (.operand hr)) fun _ => .pure _
  · exact ofOpens (Composed.opens_sizeOf hr).toTrue (takeKind (by simp))
  · refine bindLook (g := fun s => decide (s.front.kind = .delimiter .leftParen) &&
      s.second.kind.startsType) fun inParens => ite (fun h => ?_) fun _ => operand hr
    refine ofTakes (Composed.opens_cast hr).toTrue fun s hs => State.open_of_front ?_
    have hparens := hs.2.trans h
    simp only [Bool.and_eq_true, decide_eq_true_eq] at hparens
    simp [hparens.1]

theorem binary (hr : r.Composed) (level : Nat) : Advances P (binary r level) Always := by
  induction level with
  | zero => exact unary hr
  | succ level ih => exact ofOpens (Composed.opens_chain _ (.relax (.binary hr level))) ih

theorem conditional (hr : r.Composed) : Advances P (conditional r) Always :=
  ofOpens (Composed.opens_conditional hr).toTrue (binary hr 10)

theorem expression (hr : r.Composed) : Advances P (expression r) Always :=
  oneDeeper (R := Always) (bindLeft (conditional hr) fun _ => .bind .frontKind fun _ => .ite
    (.bind .takeFront fun _ => .bind (.relax hr.expression) fun _ => .pure _) (.pure _))
    fun _ _ => trivial

/-! ## Directive lines -/

theorem lineTexts : Advances (fun s => s.front.kind.isDirective = true) lineTexts Always := by
  refine bindLeft (loopFirst (fun found => .bind .frontKind fun kind => ?_) ?_) fun _ => .pure _
  · split
    · exact .pure _
    · exact .pure _
    · exact .bind .takeFront fun _ => .pure _
  · refine bindLook fun kind => ?_
    split
    · rintro s t a ⟨hs, hk⟩
      rw [hk] at hs
      contradiction
    · rintro s t a ⟨hs, hk⟩
      rw [hk] at hs
      contradiction
    · refine bindLeft (takeFront.mono fun s hs => State.open_of_front fun h => ?_) fun _ => .pure _
      rw [h] at hs
      exact absurd hs.1 (by decide)

theorem otherDirective : Advances
    (fun s => ¬s.MissesLine ∧ s.front.kind.isOtherDirective = true) otherDirective Always :=
  bindLook fun _ => bindLeft (onDirectiveLine lineTexts fun s hs => by
    rw [State.front_onLine fun hnewline => hs.1.1 ⟨hnewline, hs.1.2⟩]
    exact (Token.Kind.isOtherDirective_iff.mp hs.1.2).1) fun _ => .pure _

/-! ## Statements -/

theorem expressionStatement (hr : r.Composed) : Advances P (expressionStatement r) Always :=
  bindRight .here fun _ => bindRight (.relax hr.expression) fun _ =>
    bindLeft (requireMark _ _) fun _ => .pure _

theorem openStatement (hr : r.Composed) (kind : Token.Kind) :
    Advances (State.At kind) (openStatement r kind) Always := by
  refine bindLook (g := fun s => decide (s.front.kind = .identifier) &&
    decide (s.second.kind = .delimiter .colon)) fun ahead => ?_
  refine ite (fun h => ?_) fun _ => ite (fun _ => ?_) fun _ => ite (fun _ => ?_) fun _ =>
    ite (fun _ => stop) fun h => ?_
  · refine one (ofTakes Composed.opens_label fun s hs => ?_)
    have hahead := hs.2.trans h
    simp only [Bool.and_eq_true, decide_eq_true_eq] at hahead
    exact State.open_of_front (by simp [hahead.1])
  · exact declaration hr
  · exact one (expressionStatement hr)
  · refine bindLeft (takeFront.mono fun s hs => State.open_of_front fun hend => h ?_)
      fun _ => .pure _
    simp [← hs.1.2, hend]

theorem statementOf (hr : r.Composed) (kind : Token.Kind) :
    Advances (State.At kind) (statementOf r kind) Always := by
  have htakes : ∀ {p : Parse Node}, Opens true true Grammar.takeFront p → kind ≠ .endOfInput →
      Advances (State.At kind) (Grammar.one p) Always := fun h hk =>
    one (ofTakes h fun s hs => State.open_of_front (by rwa [hs.2]))
  unfold Grammar.statementOf
  split
  · exact htakes (Composed.opens_ifStatement hr) (by simp)
  · exact htakes (Composed.opens_forStatement hr) (by simp)
  · exact htakes (Composed.opens_whileStatement hr) (by simp)
  · exact htakes (Composed.opens_doWhileStatement hr) (by simp)
  · exact htakes (Composed.opens_switchStatement hr) (by simp)
  · exact htakes (Composed.opens_caseLabel hr).toTrue (by simp)
  · exact htakes Composed.opens_defaultLabel (by simp)
  · exact htakes (Composed.opens_returnStatement hr).toTrue (by simp)
  · exact htakes (Composed.opens_jump _ _) (by simp)
  · exact htakes (Composed.opens_jump _ _) (by simp)
  · exact htakes Composed.opens_gotoStatement (by simp)
  · exact one (block hr)
  · exact htakes Composed.opens_inclusion (by simp)
  · exact htakes (Composed.opens_macroDefinition hr).toTrue (by simp)
  · rename_i hinclusion hdefinition
    refine one (otherDirective.mono fun s hs => ⟨hs.1, ?_⟩)
    rw [hs.2]
    exact Token.Kind.isOtherDirective_iff.mpr ⟨rfl, by simpa using hinclusion,
      by simpa using hdefinition⟩
  · exact openStatement hr _

/-- A statement takes a token, where it is no marker that is missed. -/
theorem statement (hr : r.Composed) :
    Advances (fun s => ¬s.MissesLine) (statement r) Always :=
  oneDeeper (bindLook fun kind => (statementOf hr kind).mono fun _ hs => hs)
    fun _ hs => hs

/-! ## Items -/

/-- An item takes a token, where no newline stands before it and the file goes on. -/
theorem item (hr : r.Composed) : Advances (fun s => s.Settled ∧ s.Open) (item r) Always := by
  refine bindLook fun kind => ite (fun _ => ?_) fun hinclusion =>
    ite (fun _ => ?_) fun hdefinition => ite (fun h => ?_) fun _ => ite (fun _ => ?_) fun _ => ?_
  · exact one (ofTakes Composed.opens_inclusion fun s hs => hs.1.2)
  · exact one (ofTakes (Composed.opens_macroDefinition hr).toTrue fun s hs => hs.1.2)
  · refine one (otherDirective.mono fun s hs => ⟨hs.1.1.not_missesLine, ?_⟩)
    rw [hs.2]
    exact Token.Kind.isOtherDirective_iff.mpr ⟨h, hinclusion, hdefinition⟩
  · exact declaration hr
  · exact bindLeft (takeFront.mono fun s hs => hs.1.2) fun _ => .pure _

end Advances

end CSurvey.Grammar
