import CSurvey.Proofs.Grammar.Readers

/-! # Where comments go

A reader steps over comments and sets them aside, or hands them out among its nodes. What it hands
out and what is still set aside afterwards are together what was set aside before and what it
stepped over, in the order of the source. -/

namespace CSurvey.Grammar

/-! ## Accounts -/

/-- The comments among some tokens, as nodes. -/
def commentNodes (tokens : List Token) : List Node :=
  (tokens.filter fun t => t.kind.isComment).map asComment

theorem commentNodes_append (ts us : List Token) :
    commentNodes (ts ++ us) = commentNodes ts ++ commentNodes us := by
  simp [commentNodes]

/-- From one state to another, tokens are passed and the given nodes handed out; no comment is
lost, doubled or moved. -/
def Accounts (s t : State) (given : List Node) : Prop :=
  ∃ passed, s.rest = passed ++ t.rest ∧
    given ++ t.comments = s.comments ++ commentNodes passed

namespace Accounts

variable {s t u : State} {given given' : List Node}

theorem refl (s : State) : Accounts s s [] :=
  ⟨[], by simp [commentNodes]⟩

theorem trans (h : Accounts s t given) (h' : Accounts t u given') :
    Accounts s u (given ++ given') := by
  obtain ⟨passed, hrest, hgiven⟩ := h
  obtain ⟨passed', hrest', hgiven'⟩ := h'
  refine ⟨passed ++ passed', by simp [hrest, hrest'], ?_⟩
  calc given ++ given' ++ u.comments
      = given ++ (t.comments ++ commentNodes passed') := by rw [List.append_assoc, hgiven']
    _ = s.comments ++ commentNodes (passed ++ passed') := by
      rw [← List.append_assoc, hgiven, List.append_assoc, ← commentNodes_append]

/-- A part that hands out nothing comes before one that does. -/
theorem after (h : Accounts s t []) (h' : Accounts t u given) : Accounts s u given :=
  h.trans h'

/-- The comments set aside or still to come. -/
theorem due (h : Accounts s t given) :
    s.comments ++ commentNodes s.rest = given ++ (t.comments ++ commentNodes t.rest) := by
  obtain ⟨passed, hrest, hgiven⟩ := h
  rw [hrest, commentNodes_append, ← List.append_assoc, ← hgiven, List.append_assoc]

theorem passTrivia (s : State) : Accounts s s.passTrivia [] := by
  refine ⟨s.rest.takeWhile s.isPassed, ?_, rfl⟩
  exact (List.takeWhile_append_dropWhile).symm

/-- What counts is no comment. -/
theorem commentNodes_front (s : State) : commentNodes (s.upcoming.take 1) = [] := by
  cases h : s.upcoming with
  | nil => rfl
  | cons t ts =>
      have ht := State.isPassed_of_upcoming_cons h
      simp only [State.isPassed, Bool.or_eq_false_iff] at ht
      simp [commentNodes, ht.1]

theorem dropFront (s : State) : Accounts s s.dropFront [] := by
  refine (Accounts.passTrivia s).after ⟨s.upcoming.take 1, ?_, ?_⟩
  · exact (List.take_append_drop 1 s.upcoming).symm
  · simp [commentNodes_front, State.dropFront]

theorem takeComments (h : takeComments s = .ok given t) : Accounts s t given := by
  obtain ⟨rfl, rfl⟩ := EStateM.Result.ok.inj h
  obtain ⟨passed, hrest, hgiven⟩ := Accounts.passTrivia s
  exact ⟨passed, hrest, by simpa using hgiven⟩

end Accounts

/-- Readers that collect no comments hand none out. -/
theorem Composed.accounts {lines : Bool} {α : Type} {p : Parse α} {s t : State} {a : α}
    (hp : Composed false lines p) (h : p s = .ok a t) : Accounts s t [] := by
  induction hp generalizing s t with
  | pure _ =>
      obtain ⟨-, rfl⟩ := pure_eq_ok.mp h
      exact .refl s
  | bind _ _ ihp ihf =>
      obtain ⟨b, u, hb, ha⟩ := bind_eq_ok.mp h
      exact (ihp hb).after (ihf b ha)
  | look f =>
      obtain ⟨-, rfl⟩ := EStateM.Result.ok.inj h
      exact .refl s
  | stop f =>
      simp at h
  | takeFront =>
      obtain ⟨-, rfl⟩ := EStateM.Result.ok.inj h
      exact .dropFront s
  | note w =>
      obtain ⟨-, rfl⟩ := EStateM.Result.ok.inj h
      exact .refl s
  | goDeeper =>
      unfold Grammar.goDeeper at h
      split at h
      · obtain ⟨-, rfl⟩ := EStateM.Result.ok.inj h
        exact .refl s
      · simp at h
  | oneDeeper _ ih =>
      obtain ⟨-, u, hu, rfl⟩ := oneDeeper_eq_ok.mp h
      have hin := ih hu
      exact hin
  | onDirectiveLine _ _ ih =>
      obtain ⟨u, hu, rfl⟩ := onDirectiveLine_eq_ok.mp h
      have hin := ih hu
      exact hin
  | loop _ ih =>
      refine loop_ok (I := fun _ u => Accounts s u []) (D := fun _ u => Accounts s u []) ?_
        (.refl s) h
      intro b u turn v hu hv
      have huv := hu.after (ih b hv)
      cases turn with
      | again _ => exact huv
      | done _ => exact huv
  | takeComments hc =>
      contradiction

end CSurvey.Grammar
