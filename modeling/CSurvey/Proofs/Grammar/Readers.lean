import CSurvey.Proofs.Grammar.Composed

/-! # Runs of readers

What is known of a run that succeeds: how its parts ran, and where it leaves the state. -/

namespace CSurvey

namespace Grammar

/-! ## Readers that succeed -/

theorem bind_apply {α β : Type} (p : Parse α) (f : α → Parse β) (s : State) :
    (p >>= f) s =
      match p s with
      | .ok a t => f a t
      | .error e t => .error e t := by
  show EStateM.bind p f s = _
  unfold EStateM.bind
  cases p s with
  | ok a t => rfl
  | error e t => rfl

theorem bind_eq_ok {α β : Type} {p : Parse α} {f : α → Parse β} {s t : State} {b : β} :
    (p >>= f) s = .ok b t ↔ ∃ a u, p s = .ok a u ∧ f a u = .ok b t := by
  rw [bind_apply]
  cases p s with
  | ok a u => simp [and_assoc]
  | error e u => simp

theorem pure_eq_ok {α : Type} {a b : α} {s t : State} :
    (pure a : Parse α) s = .ok b t ↔ a = b ∧ s = t := by
  show EStateM.Result.ok a s = .ok b t ↔ _
  simp

theorem oneDeeper_eq_ok {α : Type} {p : Parse α} {s t : State} {a : α} :
    oneDeeper p s = .ok a t ↔ s.depth < s.limit ∧
      ∃ u, p { s with depth := s.depth + 1 } = .ok a u ∧ { u with depth := s.depth } = t := by
  unfold oneDeeper goDeeper
  by_cases h : s.depth < s.limit
  · cases hp : p { s with depth := s.depth + 1 } <;> simp [h, hp, and_assoc]
  · simp [h]

theorem onDirectiveLine_eq_ok {α : Type} {p : Parse α} {s t : State} {a : α} :
    onDirectiveLine p s = .ok a t ↔
      ∃ u, p { s with onLine := true } = .ok a u ∧ { u with onLine := s.onLine } = t := by
  unfold onDirectiveLine
  cases p { s with onLine := true } <;> simp [and_assoc]

/-! ## Readers that fail -/

theorem bind_eq_error {α β : Type} {p : Parse α} {f : α → Parse β} {s t : State} {e : Failure} :
    (p >>= f) s = .error e t ↔
      p s = .error e t ∨ ∃ a u, p s = .ok a u ∧ f a u = .error e t := by
  rw [bind_apply]
  cases p s with
  | ok a u => simp [and_assoc]
  | error e u => simp

theorem oneDeeper_eq_error {α : Type} {p : Parse α} {s t : State} {e : Failure} :
    oneDeeper p s = .error e t ↔
      ¬s.depth < s.limit ∧ e = ⟨.tooDeep s.limit, s.front.location⟩ ∧ s = t ∨
        s.depth < s.limit ∧ ∃ u, p { s with depth := s.depth + 1 } = .error e u ∧
          { u with depth := s.depth } = t := by
  unfold oneDeeper goDeeper
  by_cases h : s.depth < s.limit
  · cases hp : p { s with depth := s.depth + 1 } <;> simp [h, hp, and_assoc]
  · simp [h, eq_comm]

theorem onDirectiveLine_eq_error {α : Type} {p : Parse α} {s t : State} {e : Failure} :
    onDirectiveLine p s = .error e t ↔
      ∃ u, p { s with onLine := true } = .error e u ∧ { u with onLine := s.onLine } = t := by
  unfold onDirectiveLine
  cases p { s with onLine := true } <;> simp [and_assoc]

/-! ## Loops -/

theorem rounds_done {α : Type} {round : α → Parse (Turn α)} {a b : α} {s t : State}
    (h : round a s = .ok (.done b) t) (fuel : List Token) : rounds round fuel a s = .ok b t := by
  cases fuel with
  | nil =>
      rw [rounds, bind_apply, h]
      rfl
  | cons x xs =>
      rw [rounds, bind_apply, h]
      rfl

theorem rounds_again {α : Type} {round : α → Parse (Turn α)} {a b : α} {s t : State}
    (h : round a s = .ok (.again b) t) (x : Token) (fuel : List Token) :
    rounds round (x :: fuel) a s = rounds round fuel b t := by
  rw [rounds, bind_apply, h]

theorem rounds_fails {α : Type} {round : α → Parse (Turn α)} {a : α} {s t : State} {e : Failure}
    (h : round a s = .error e t) (fuel : List Token) : rounds round fuel a s = .error e t := by
  cases fuel with
  | nil => exact bind_eq_error.mpr (.inl h)
  | cons x xs => exact bind_eq_error.mpr (.inl h)

/-- Rounds that come to a result end with the first of them, or go on behind it with one round less
to spare. -/
@[elab_as_elim]
theorem rounds_induction {α : Type} {round : α → Parse (Turn α)} {b : α} {t : State}
    {motive : (fuel : List Token) → (a : α) → (s : State) → rounds round fuel a s = .ok b t → Prop}
    (done : ∀ {fuel a s h}, round a s = .ok (.done b) t → motive fuel a s h)
    (again : ∀ {x fuel a c s u h} (hend : rounds round fuel c u = .ok b t),
      round a s = .ok (.again c) u → motive fuel c u hend → motive (x :: fuel) a s h)
    {fuel : List Token} {a : α} {s : State} (h : rounds round fuel a s = .ok b t) :
    motive fuel a s h := by
  induction fuel generalizing a s with
  | nil =>
      obtain ⟨turn, u, hturn, hend⟩ := bind_eq_ok.mp h
      cases turn with
      | again c =>
          simp [fail] at hend
      | done c =>
          obtain ⟨rfl, rfl⟩ := pure_eq_ok.mp hend
          exact done hturn
  | cons x fuel ih =>
      obtain ⟨turn, u, hturn, hend⟩ := bind_eq_ok.mp h
      cases turn with
      | again c =>
          exact again hend hturn (ih hend)
      | done c =>
          obtain ⟨rfl, rfl⟩ := pure_eq_ok.mp hend
          exact done hturn

/-- Rounds that fail do so in the first of them, run out behind it, or fail in those behind it. -/
@[elab_as_elim]
theorem rounds_error_induction {α : Type} {round : α → Parse (Turn α)} {e : Failure} {t : State}
    {motive : (fuel : List Token) → (a : α) → (s : State) →
      rounds round fuel a s = .error e t → Prop}
    (fails : ∀ {fuel a s h}, round a s = .error e t → motive fuel a s h)
    (runsOut : ∀ {a c s h}, round a s = .ok (.again c) t → e = ⟨.exhausted, t.front.location⟩ →
      motive [] a s h)
    (again : ∀ {x fuel a c s u h} (hend : rounds round fuel c u = .error e t),
      round a s = .ok (.again c) u → motive fuel c u hend → motive (x :: fuel) a s h)
    {fuel : List Token} {a : α} {s : State} (h : rounds round fuel a s = .error e t) :
    motive fuel a s h := by
  induction fuel generalizing a s with
  | nil =>
      rcases bind_eq_error.mp h with hturn | ⟨turn, u, hturn, hend⟩
      · exact fails hturn
      · cases turn with
        | again c =>
            obtain ⟨rfl, rfl⟩ := EStateM.Result.error.inj hend
            exact runsOut hturn rfl
        | done c => cases hend
  | cons x fuel ih =>
      rcases bind_eq_error.mp h with hturn | ⟨turn, u, hturn, hend⟩
      · exact fails hturn
      · cases turn with
        | again c => exact again hend hturn (ih hend)
        | done c => cases hend

/-- A round keeps `I` or ends with `D`. -/
def Turn.Holds {α : Type} (I D : α → State → Prop) (t : State) : Turn α → Prop
  | .again a => I a t
  | .done a => D a t

/-- What every round keeps, a loop comes to its end with. -/
theorem rounds_ok {α : Type} {I D : α → State → Prop} {round : α → Parse (Turn α)}
    (hround : ∀ a s turn t, I a s → round a s = .ok turn t → turn.Holds I D t)
    {fuel : List Token} {a b : α} {s t : State} (ha : I a s)
    (h : rounds round fuel a s = .ok b t) : D b t := by
  induction h using rounds_induction with
  | done hturn => exact hround _ _ _ _ ha hturn
  | again _ hturn ih => exact ih (hround _ _ _ _ ha hturn)

theorem loop_ok {α : Type} {I D : α → State → Prop} {round : α → Parse (Turn α)}
    (hround : ∀ a s turn t, I a s → round a s = .ok turn t → turn.Holds I D t)
    {a b : α} {s t : State} (ha : I a s) (h : loop round a s = .ok b t) : D b t :=
  rounds_ok hround ha h

/-- A loop fails where a round does, or where the rounds run out. -/
theorem loop_error {α : Type} {I : α → State → Prop} {E : State → Prop}
    {round : α → Parse (Turn α)}
    (hround : ∀ a s turn t, I a s → round a s = .ok turn t → turn.Holds I (fun _ _ => True) t)
    (herror : ∀ a s e t, I a s → round a s = .error e t → E t) (hend : ∀ a s, I a s → E s)
    {a : α} {e : Failure} {s t : State} (ha : I a s) (h : loop round a s = .error e t) : E t := by
  unfold loop at h
  generalize s.rest = fuel at h
  induction h using rounds_error_induction with
  | fails hturn => exact herror _ _ _ _ ha hturn
  | runsOut hturn _ => exact hend _ _ (hround _ _ _ _ ha hturn)
  | again _ hturn ih => exact ih (hround _ _ _ _ ha hturn)

/-! ## Where a run leaves the state -/

/-- The second state stands behind the first one in the same construct, with all its notes. -/
structure State.Leads (s t : State) : Prop where
  rest : t.rest <:+ s.rest
  stop : t.stop = s.stop
  limit : t.limit = s.limit
  onLine : t.onLine = s.onLine
  depth : s.depth ≤ t.depth
  warnings : s.warnings <+: t.warnings

namespace State.Leads

variable {s t u : State}

theorem refl (s : State) : s.Leads s :=
  ⟨List.suffix_refl _, rfl, rfl, rfl, Nat.le_refl _, List.prefix_refl _⟩

theorem trans (h : s.Leads t) (h' : t.Leads u) : s.Leads u :=
  ⟨h'.rest.trans h.rest, h'.stop.trans h.stop, h'.limit.trans h.limit, h'.onLine.trans h.onLine,
    Nat.le_trans h.depth h'.depth, h.warnings.trans h'.warnings⟩

theorem passTrivia (s : State) : s.Leads s.passTrivia :=
  ⟨List.dropWhile_suffix _, rfl, rfl, rfl, Nat.le_refl _, List.prefix_refl _⟩

theorem dropFront (s : State) : s.Leads s.dropFront :=
  (passTrivia s).trans
    ⟨List.drop_suffix _ _, rfl, rfl, rfl, Nat.le_refl _, List.prefix_refl _⟩

theorem takeComments (s : State) : s.Leads { s.passTrivia with comments := [] } :=
  (passTrivia s).trans ⟨List.suffix_refl _, rfl, rfl, rfl, Nat.le_refl _, List.prefix_refl _⟩

theorem note (w : SkippedMember) (s : State) :
    s.Leads { s with warnings := s.warnings ++ [w] } :=
  ⟨List.suffix_refl _, rfl, rfl, rfl, Nat.le_refl _, List.prefix_append _ _⟩

theorem goDeeper (s : State) : s.Leads { s with depth := s.depth + 1 } :=
  ⟨List.suffix_refl _, rfl, rfl, rfl, Nat.le_succ _, List.prefix_refl _⟩

theorem oneDeeper (h : State.Leads { s with depth := s.depth + 1 } t) :
    s.Leads { t with depth := s.depth } :=
  ⟨h.rest, h.stop, h.limit, h.onLine, Nat.le_refl _, h.warnings⟩

theorem onDirectiveLine (h : State.Leads { s with onLine := true } t) :
    s.Leads { t with onLine := s.onLine } :=
  ⟨h.rest, h.stop, h.limit, rfl, h.depth, h.warnings⟩

theorem length_le (h : s.Leads t) : t.rest.length ≤ s.rest.length :=
  h.rest.length_le

end State.Leads

/-- A run never goes back, and leaves the modes as they are. -/
theorem Composed.leads {α : Type} {p : Parse α} {s t : State} {a : α} (hp : Composed true true p)
    (h : p s = .ok a t) : s.Leads t := by
  induction hp generalizing s t with
  | pure _ =>
      obtain ⟨-, rfl⟩ := pure_eq_ok.mp h
      exact .refl s
  | bind _ _ ihp ihf =>
      obtain ⟨b, u, hb, ha⟩ := bind_eq_ok.mp h
      exact (ihp hb).trans (ihf b ha)
  | look f =>
      obtain ⟨-, rfl⟩ := EStateM.Result.ok.inj h
      exact .refl s
  | stop f =>
      simp at h
  | takeFront =>
      obtain ⟨-, rfl⟩ := EStateM.Result.ok.inj h
      exact .dropFront s
  | note w =>
      obtain ⟨-, rfl⟩ := EStateM.Result.ok.inj h
      exact .note w s
  | goDeeper =>
      unfold Grammar.goDeeper at h
      split at h
      · obtain ⟨-, rfl⟩ := EStateM.Result.ok.inj h
        exact .goDeeper s
      · simp at h
  | oneDeeper _ ih =>
      obtain ⟨-, u, hu, rfl⟩ := oneDeeper_eq_ok.mp h
      exact (ih hu).oneDeeper
  | onDirectiveLine _ _ ih =>
      obtain ⟨u, hu, rfl⟩ := onDirectiveLine_eq_ok.mp h
      exact (ih hu).onDirectiveLine
  | loop _ ih =>
      refine loop_ok (I := fun _ u => s.Leads u) (D := fun _ u => s.Leads u) ?_ (.refl s) h
      intro b u turn v hu hv
      have huv := hu.trans (ih b hv)
      cases turn with
      | again _ => exact huv
      | done _ => exact huv
  | takeComments _ =>
      obtain ⟨-, rfl⟩ := EStateM.Result.ok.inj h
      exact .takeComments s

/-- A run that fails does not go back either. -/
theorem Composed.leads_error {α : Type} {p : Parse α} {s t : State} {e : Failure}
    (hp : Composed true true p) (h : p s = .error e t) : s.Leads t := by
  induction hp generalizing s t e with
  | pure _ =>
      cases h
  | bind hp _ ihp ihf =>
      rcases bind_eq_error.mp h with h | ⟨b, u, hb, h⟩
      · exact ihp h
      · exact (hp.leads hb).trans (ihf b h)
  | look f =>
      simp at h
  | stop f =>
      obtain ⟨-, rfl⟩ := EStateM.Result.error.inj h
      exact .refl s
  | takeFront =>
      cases h
  | note w =>
      cases h
  | goDeeper =>
      unfold Grammar.goDeeper at h
      split at h
      · cases h
      · obtain ⟨-, rfl⟩ := EStateM.Result.error.inj h
        exact .refl s
  | oneDeeper _ ih =>
      rcases oneDeeper_eq_error.mp h with ⟨-, -, rfl⟩ | ⟨-, u, hu, rfl⟩
      · exact .refl s
      · exact (ih hu).oneDeeper
  | onDirectiveLine _ _ ih =>
      obtain ⟨u, hu, rfl⟩ := onDirectiveLine_eq_error.mp h
      exact (ih hu).onDirectiveLine
  | loop hround ih =>
      refine loop_error (I := fun _ u => s.Leads u) (E := fun u => s.Leads u) ?_ ?_ ?_ (.refl s) h
      · intro b u turn v hu hv
        cases turn with
        | again _ => exact hu.trans ((hround b).leads hv)
        | done _ => trivial
      · intro b u e v hu hv
        exact hu.trans (ih b hv)
      · exact fun _ _ hu => hu
  | takeComments _ =>
      cases h

end Grammar

/-- A run that is checked to come to a result. -/
theorem exists_eq_ok {α : Type} [DecidableEq α] {p : Grammar.Parse α} {s : Grammar.State} {a : α}
    (h : (match p s with | .ok b _ => decide (b = a) | .error _ _ => false) = true) :
    ∃ t, p s = .ok a t := by
  cases hp : p s with
  | ok b t =>
      rw [hp] at h
      obtain rfl : b = a := of_decide_eq_true h
      exact ⟨t, rfl⟩
  | error e t =>
      rw [hp] at h
      contradiction

/-- A run that is checked to come to a result and a state of some form. -/
theorem exists_ok_and {α : Type} {P : α → Grammar.State → Prop} [∀ a t, Decidable (P a t)]
    {p : Grammar.Parse α} {s : Grammar.State}
    (h : (match p s with | .ok a t => decide (P a t) | .error _ _ => false) = true) :
    ∃ a t, p s = .ok a t ∧ P a t := by
  cases hp : p s with
  | ok a t =>
      rw [hp] at h
      exact ⟨a, t, rfl, of_decide_eq_true h⟩
  | error e t =>
      rw [hp] at h
      contradiction

end CSurvey
