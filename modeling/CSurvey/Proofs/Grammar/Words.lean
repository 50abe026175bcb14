import CSurvey.Proofs.Grammar.Readers

/-! # The tokens that count

What a reader sees of a state are the tokens that are not stepped over. -/

namespace CSurvey

/-- A token without its place. -/
abbrev Word := Token.Kind × String

/-- The kind and the text of a token. -/
def Token.word (t : Token) : Word := (t.kind, t.text)

@[simp] theorem Token.word_fst (t : Token) : t.word.1 = t.kind := rfl

@[simp] theorem Token.word_snd (t : Token) : t.word.2 = t.text := rfl

namespace Grammar

/-- The tokens not yet read that count. -/
def State.words (s : State) : List Token :=
  s.rest.filter fun t => !s.isPassed t

namespace State

variable {s : State} {t : Token} {ts : List Token}

theorem words_eq_filter_upcoming (s : State) :
    s.words = s.upcoming.filter fun t => !s.isPassed t := by
  unfold words upcoming
  induction s.rest with
  | nil => rfl
  | cons x xs ih =>
      by_cases hx : s.isPassed x = true
      · simp [hx, ih]
      · simp [hx]

theorem upcoming_eq_nil (h : s.words = []) : s.upcoming = [] := by
  cases hup : s.upcoming with
  | nil => rfl
  | cons x xs =>
      have hx := isPassed_of_upcoming_cons hup
      rw [words_eq_filter_upcoming, hup, List.filter_cons_of_pos (by simp [hx])] at h
      contradiction

/-- The first token that counts is the next one of the state. -/
theorem upcoming_eq_cons (h : s.words = t :: ts) :
    ∃ us, s.upcoming = t :: us ∧ us.filter (fun t => !s.isPassed t) = ts := by
  rw [words_eq_filter_upcoming] at h
  cases hup : s.upcoming with
  | nil =>
      rw [hup] at h
      contradiction
  | cons x xs =>
      have hx := isPassed_of_upcoming_cons hup
      rw [hup, List.filter_cons_of_pos (by simp [hx])] at h
      obtain ⟨rfl, hts⟩ := List.cons.inj h
      exact ⟨xs, rfl, hts⟩

theorem front_of_nil (h : s.words = []) : s.front = .endOfInput s.stop := by
  simp [front, upcoming_eq_nil h]

theorem front_of_cons (h : s.words = t :: ts) : s.front = t := by
  obtain ⟨us, hup, -⟩ := upcoming_eq_cons h
  simp [front, hup]

theorem words_dropFront (h : s.words = t :: ts) : s.dropFront.words = ts := by
  obtain ⟨us, hup, hts⟩ := upcoming_eq_cons h
  have hrest : s.dropFront.rest = us := by
    show s.upcoming.drop 1 = us
    rw [hup]
    rfl
  rw [words, hrest]
  exact hts

theorem second_of_cons (h : s.words = t :: ts) :
    s.second = ts.headD (.endOfInput s.stop) := by
  have hwords := words_dropFront h
  show s.dropFront.front = _
  cases ts with
  | nil => exact front_of_nil hwords
  | cons u us => exact front_of_cons hwords

/-- The tokens not yet read that count, without their places. -/
def script (s : State) : List Word :=
  s.words.map Token.word

variable {w : Word} {ws : List Word}

theorem words_of_script (h : s.script = w :: ws) :
    ∃ t ts, s.words = t :: ts ∧ t.word = w ∧ ts.map Token.word = ws :=
  List.map_eq_cons_iff.mp h

/-- Comments are no words. -/
theorem script_takeComments (s : State) :
    ({ s.passTrivia with comments := [] } : State).script = s.script :=
  congrArg (List.map Token.word) s.words_eq_filter_upcoming.symm

/-- There are no more words than tokens. -/
theorem length_script_le (s : State) : s.script.length ≤ s.rest.length := by
  rw [script, List.length_map]
  exact List.length_filter_le _ _

theorem rest_ne_nil_of_script (h : s.script = w :: ws) : s.rest ≠ [] := by
  intro hnone
  rw [script, words, hnone] at h
  contradiction

theorem front_word (h : s.script = w :: ws) : s.front.word = w := by
  obtain ⟨t, ts, hwords, ht, -⟩ := words_of_script h
  rw [front_of_cons hwords, ht]

theorem script_dropFront (h : s.script = w :: ws) : s.dropFront.script = ws := by
  obtain ⟨t, ts, hwords, -, hts⟩ := words_of_script h
  rw [script, words_dropFront hwords, hts]

/-- At the end the state stays there. -/
theorem script_dropFront_of_nil (h : s.script = []) : s.dropFront.script = [] := by
  have hup : s.upcoming = [] := upcoming_eq_nil (List.map_eq_nil_iff.mp h)
  have hrest : s.dropFront.rest = [] := by
    show s.upcoming.drop 1 = []
    rw [hup]
    rfl
  rw [script, words, hrest]
  rfl

/-- The kind of the next token. -/
theorem front_kind (s : State) : s.front.kind = (s.script.head?.map Prod.fst).getD .endOfInput := by
  cases hwords : s.words with
  | nil => simp [script, hwords, front_of_nil hwords, Token.endOfInput]
  | cons t ts => simp [script, hwords, front_of_cons hwords, Token.word]

theorem second_kind (h : s.script = w :: ws) :
    s.second.kind = (ws.head?.map Prod.fst).getD .endOfInput := by
  have hfront := front_kind s.dropFront
  rw [script_dropFront h] at hfront
  exact hfront

end State

/-! ## Single steps -/

theorem pure_apply {α : Type} (a : α) (s : State) : (pure a : Parse α) s = .ok a s := rfl

theorem front_apply (s : State) : front s = .ok s.front s := rfl

theorem frontKind_apply (s : State) : frontKind s = .ok s.front.kind s := rfl

theorem secondKind_apply (s : State) : secondKind s = .ok s.second.kind s := rfl

theorem here_apply (s : State) : here s = .ok s.front.location s := rfl

theorem takeFront_apply (s : State) : takeFront s = .ok s.front s.dropFront := rfl

/-- The state one level deeper. -/
def State.deeper (s : State) : State :=
  { s with depth := s.depth + 1 }

@[simp] theorem State.script_deeper (s : State) : s.deeper.script = s.script := rfl

@[simp] theorem State.front_deeper (s : State) : s.deeper.front = s.front := rfl

@[simp] theorem State.dropFront_deeper (s : State) : s.deeper.dropFront = s.dropFront.deeper := rfl

theorem goDeeper_apply {s : State} (h : s.depth < s.limit) : goDeeper s = .ok () s.deeper := by
  rw [goDeeper, if_pos h]
  rfl

/-! ## Rounds -/

/-- The rounds of a loop from a value and a state to others, the last round included. Each of the
others leaves fewer tokens. -/
inductive Turns {α : Type} (round : α → Parse (Turn α)) : α → State → α → State → Prop where
  | done {a b : α} {s t : State} (h : round a s = .ok (.done b) t) : Turns round a s b t
  | again {a b c : α} {s t u : State} (h : round a s = .ok (.again b) t)
      (hlt : t.rest.length < s.rest.length) : Turns round b t c u → Turns round a s c u

theorem Turns.rounds_eq {α : Type} {round : α → Parse (Turn α)} {a b : α} {s t : State}
    {fuel : List Token} (h : Turns round a s b t) (hfuel : s.rest.length ≤ fuel.length) :
    rounds round fuel a s = .ok b t := by
  induction h generalizing fuel with
  | done h => exact rounds_done h fuel
  | again h hlt _ ih =>
      cases fuel with
      | nil =>
          rw [List.length_nil] at hfuel
          omega
      | cons x fuel =>
          rw [List.length_cons] at hfuel
          rw [rounds_again h]
          exact ih (by omega)

/-- A loop makes its rounds. -/
theorem Turns.loop_eq {α : Type} {round : α → Parse (Turn α)} {a b : α} {s t : State}
    (h : Turns round a s b t) : loop round a s = .ok b t :=
  h.rounds_eq (Nat.le_refl _)

/-- A loop whose first round is the last. -/
theorem loop_done {α : Type} {round : α → Parse (Turn α)} {a b : α} {s t : State}
    (h : round a s = .ok (.done b) t) : loop round a s = .ok b t :=
  rounds_done h s.rest

/-- A loop whose first round fails. -/
theorem loop_failed {α : Type} {round : α → Parse (Turn α)} {a : α} {failure : Failure}
    {s t : State} (h : round a s = .error failure t) : loop round a s = .error failure t := by
  show rounds round s.rest a s = _
  cases s.rest with
  | nil => rw [rounds, bind_apply, h]
  | cons x xs => rw [rounds, bind_apply, h]

end Grammar

end CSurvey
