import CSurvey.Proofs.Grammar.Assembled
import CSurvey.Proofs.Grammar.Progress

/-! # Notes

A note is made of tokens that a struct body passes over, when the run of them is over. Whatever is
read, no two notes are made of the same tokens: each begins with a token that was passed on the way,
and a later note with a later token. -/

namespace CSurvey

/-- The line on which a token begins. -/
def Token.line (t : Token) : Nat :=
  t.location.line

namespace Grammar

/-! ## Where notes begin -/

/-- What is noted from one state to another begins on lines of the tokens passed on the way, of
different tokens for different notes and in their order. -/
def Notes (s t : State) : Prop :=
  ∃ passed made, s.rest = passed ++ t.rest ∧ t.warnings = s.warnings ++ made ∧
    (made.map SkippedMember.line).Sublist (passed.map Token.line)

/-- The same, where a struct body has passed over tokens, latest first, of which no note is made
yet. -/
def NotesBefore (s : State) (pending : List Token) (t : State) : Prop :=
  ∃ passed made, s.rest = passed ++ t.rest ∧ t.warnings = s.warnings ++ made ∧
    (made.map SkippedMember.line ++ (pending.getLast?.map Token.line).toList).Sublist
      (passed.map Token.line)

namespace Notes

variable {s t u : State}

theorem ofSuffix (hrest : t.rest <:+ s.rest) (hwarnings : t.warnings = s.warnings) : Notes s t := by
  obtain ⟨passed, hpassed⟩ := hrest
  exact ⟨passed, [], hpassed.symm, by simp [hwarnings], List.nil_sublist _⟩

theorem refl (s : State) : Notes s s :=
  ofSuffix (List.suffix_refl _) rfl

theorem trans (h : Notes s t) (h' : Notes t u) : Notes s u := by
  obtain ⟨passed, made, hpassed, hmade, hlines⟩ := h
  obtain ⟨passed', made', hpassed', hmade', hlines'⟩ := h'
  refine ⟨passed ++ passed', made ++ made', ?_, ?_, ?_⟩
  · rw [hpassed, hpassed', List.append_assoc]
  · rw [hmade', hmade, List.append_assoc]
  · rw [List.map_append, List.map_append]
    exact hlines.append hlines'

theorem before (h : Notes s t) : NotesBefore s [] t := by
  obtain ⟨passed, made, hpassed, hmade, hlines⟩ := h
  exact ⟨passed, made, hpassed, hmade, by simpa using hlines⟩

end Notes

namespace NotesBefore

variable {s t u : State} {pending : List Token}

theorem notes (h : NotesBefore s pending t) : Notes s t := by
  obtain ⟨passed, made, hpassed, hmade, hlines⟩ := h
  exact ⟨passed, made, hpassed, hmade, (List.sublist_append_left _ _).trans hlines⟩

/-- Tokens are passed of which nothing is noted. -/
theorem pass (h : NotesBefore s pending t) (hrest : u.rest <:+ t.rest)
    (hwarnings : u.warnings = t.warnings) : NotesBefore s pending u := by
  obtain ⟨passed, made, hpassed, hmade, hlines⟩ := h
  obtain ⟨more, hmore⟩ := hrest
  refine ⟨passed ++ more, made, ?_, hwarnings.trans hmade, ?_⟩
  · rw [hpassed, ← hmore, List.append_assoc]
  · rw [List.map_append]
    exact hlines.trans (List.sublist_append_left _ _)

/-- A token is taken that will be part of a note. -/
theorem take (h : NotesBefore s pending t) (hopen : t.Open) :
    NotesBefore s (t.front :: pending) t.dropFront := by
  by_cases hpending : pending = []
  · obtain ⟨passed, made, hpassed, hmade, hlines⟩ := h
    obtain ⟨x, xs, hup⟩ := List.exists_cons_of_ne_nil hopen
    have hfront : t.front = x := by rw [State.front, hup, List.headD_cons]
    have hrest : t.dropFront.rest = xs := by
      show t.upcoming.drop 1 = xs
      rw [hup]
      rfl
    have hsplit : t.rest = t.rest.takeWhile t.isPassed ++ x :: xs := by
      rw [← hup]
      exact List.takeWhile_append_dropWhile.symm
    refine ⟨passed ++ (t.rest.takeWhile t.isPassed ++ [x]), made, ?_, hmade, ?_⟩
    · rw [hpassed, hrest, List.append_assoc, List.append_assoc, List.singleton_append, ← hsplit]
    · rw [hpending, hfront, List.map_append, List.map_append]
      have hmade' : (made.map SkippedMember.line).Sublist (passed.map Token.line) :=
        (List.sublist_append_left _ _).trans hlines
      exact hmade'.append (List.sublist_append_right _ _)
  · have hlast : (t.front :: pending).getLast? = pending.getLast? := by
      obtain ⟨x, xs, rfl⟩ := List.exists_cons_of_ne_nil hpending
      exact List.getLast?_cons_cons
    have hpass := h.pass (u := t.dropFront) (State.Leads.dropFront t).rest rfl
    rw [NotesBefore, hlast]
    exact hpass

theorem report (h : NotesBefore s pending t) {tag : String} {x : Unit}
    (hreport : reportPassed tag pending t = .ok x u) : Notes s u := by
  obtain ⟨passed, made, hpassed, hmade, hlines⟩ := h
  unfold reportPassed at hreport
  cases hlast : pending.getLast? with
  | none =>
      rw [hlast] at hreport hlines
      obtain ⟨-, rfl⟩ := pure_eq_ok.mp hreport
      exact ⟨passed, made, hpassed, hmade, by simpa using hlines⟩
  | some first =>
      rw [hlast] at hreport hlines
      obtain ⟨-, rfl⟩ := EStateM.Result.ok.inj hreport
      let made' : SkippedMember := ⟨first.location.line, tag, pending.reverse.map Token.text⟩
      refine ⟨passed, made ++ [made'], hpassed, ?_, ?_⟩
      · show t.warnings ++ [made'] = _
        rw [hmade, List.append_assoc]
      · rw [List.map_append]
        exact hlines

end NotesBefore

/-! ## Readers -/

/-- From the states as in `P` the reader comes to results as in `Q`; where it fails, nothing but
tokens passed since `s` is noted. -/
def Tracks {α : Type} (s : State) (P : State → Prop) (p : Parse α) (Q : α → State → Prop) : Prop :=
  ∀ ⦃t : State⦄, P t → (∀ ⦃a : α⦄ ⦃u : State⦄, p t = .ok a u → Q a u) ∧
    ∀ ⦃e : Failure⦄ ⦃u : State⦄, p t = .error e u → Notes s u

namespace Tracks

variable {α β : Type} {s : State} {P : State → Prop}

theorem mono {P' : State → Prop} {p : Parse α} {Q : α → State → Prop} (hp : Tracks s P' p Q)
    (h : ∀ t, P t → P' t) : Tracks s P p Q :=
  fun t ht => hp (h t ht)

theorem pure {a : α} {Q : α → State → Prop} (h : ∀ t, P t → Q a t) :
    Tracks s P (pure a) Q := by
  intro t ht
  refine ⟨fun b u hb => ?_, fun e u he => by cases he⟩
  obtain ⟨rfl, rfl⟩ := pure_eq_ok.mp hb
  exact h _ ht

theorem bind {p : Parse α} {f : α → Parse β} {Q : α → State → Prop} {R : β → State → Prop}
    (hp : Tracks s P p Q) (hf : ∀ a, Tracks s (Q a) (f a) R) : Tracks s P (p >>= f) R := by
  intro t ht
  refine ⟨fun b v hb => ?_, fun e v he => ?_⟩
  · obtain ⟨a, u, ha, hb⟩ := bind_eq_ok.mp hb
    exact (hf a ((hp ht).1 ha)).1 hb
  · rcases bind_eq_error.mp he with he | ⟨a, u, ha, he⟩
    · exact (hp ht).2 he
    · exact (hf a ((hp ht).1 ha)).2 he

theorem ite {c : Prop} [Decidable c] {p q : Parse α} {Q : α → State → Prop}
    (hp : c → Tracks s P p Q) (hq : ¬c → Tracks s P q Q) : Tracks s P (if c then p else q) Q := by
  split
  · exact hp ‹c›
  · exact hq ‹¬c›

theorem look (g : State → α) :
    Tracks s P (fun t => .ok (g t) t) fun a t => P t ∧ g t = a := by
  intro t ht
  refine ⟨fun b u hb => ?_, fun e u he => by cases he⟩
  obtain ⟨rfl, rfl⟩ := EStateM.Result.ok.inj hb
  exact ⟨ht, rfl⟩

theorem stop {f : State → Failure} {Q : α → State → Prop} (h : ∀ t, P t → Notes s t) :
    Tracks s P (fun t => .error (f t) t) Q := by
  intro t ht
  refine ⟨fun b u hb => (by cases hb), fun e u he => ?_⟩
  obtain ⟨-, rfl⟩ := EStateM.Result.error.inj he
  exact h _ ht

theorem takeFront : Tracks s P takeFront fun a u => ∃ t, P t ∧ t.front = a ∧ t.dropFront = u := by
  intro t ht
  refine ⟨fun b u hb => ?_, fun e u he => by cases he⟩
  obtain ⟨rfl, rfl⟩ := EStateM.Result.ok.inj hb
  exact ⟨t, ht, rfl, rfl⟩

theorem loop {round : α → Parse (Turn α)} {I D : α → State → Prop} {value : α}
    (hround : ∀ a, Tracks s (I a) (round a) fun turn u => turn.Holds I D u)
    (hnotes : ∀ a t, I a t → Notes s t) (hstart : ∀ t, P t → I value t) :
    Tracks s P (loop round value) D := by
  intro t hP
  have ht := hstart t hP
  refine ⟨fun b u hb => ?_, fun e u he => ?_⟩
  · exact loop_ok (fun a v turn w hv hturn => (hround a hv).1 hturn) ht hb
  · refine loop_error (I := I) (fun a v turn w hv hturn => ?_) (fun a v e w hv he => ?_) hnotes ht
      he
    · have hturn := (hround a hv).1 hturn
      cases turn with
      | again _ => exact hturn
      | done _ => trivial
    · exact (hround a hv).2 he

end Tracks

/-- Whatever a reader comes to, nothing but tokens passed on the way is noted. -/
def Reports {α : Type} (p : Parse α) : Prop :=
  ∀ s, Tracks s (Notes s) p fun _ => Notes s

namespace Reports

variable {α β : Type} {p : Parse α}

theorem ok (h : Reports p) {s t : State} {a : α} (hp : p s = .ok a t) : Notes s t :=
  (h s (.refl s)).1 hp

theorem error (h : Reports p) {s t : State} {e : Failure} (hp : p s = .error e t) : Notes s t :=
  (h s (.refl s)).2 hp

theorem of (hok : ∀ ⦃s t : State⦄ ⦃a : α⦄, p s = .ok a t → Notes s t)
    (herror : ∀ ⦃s t : State⦄ ⦃e : Failure⦄, p s = .error e t → Notes s t) : Reports p :=
  fun _ _ ht => ⟨fun _ _ h => ht.trans (hok h), fun _ _ h => ht.trans (herror h)⟩

theorem oneDeeper (hp : Reports p) : Reports (oneDeeper p) := by
  refine of (fun s t a h => ?_) fun s t e h => ?_
  · obtain ⟨-, u, hu, rfl⟩ := oneDeeper_eq_ok.mp h
    have hnotes := hp.ok hu
    exact hnotes
  · rcases oneDeeper_eq_error.mp h with ⟨-, -, rfl⟩ | ⟨-, u, hu, rfl⟩
    · exact .refl s
    · have hnotes := hp.error hu
      exact hnotes

theorem onDirectiveLine (hp : Reports p) : Reports (onDirectiveLine p) := by
  refine of (fun s t a h => ?_) fun s t e h => ?_
  · obtain ⟨u, hu, rfl⟩ := onDirectiveLine_eq_ok.mp h
    have hnotes := hp.ok hu
    exact hnotes
  · obtain ⟨u, hu, rfl⟩ := onDirectiveLine_eq_error.mp h
    have hnotes := hp.error hu
    exact hnotes

theorem goDeeper : Reports goDeeper := by
  refine of (fun s t a h => ?_) fun s t e h => ?_
  · unfold Grammar.goDeeper at h
    split at h
    · obtain ⟨-, rfl⟩ := EStateM.Result.ok.inj h
      exact .refl s
    · cases h
  · unfold Grammar.goDeeper at h
    split at h
    · cases h
    · obtain ⟨-, rfl⟩ := EStateM.Result.error.inj h
      exact .refl s

/-- What is put together from parts that report reports. -/
theorem ofAssembled (h : Assembled (fun _ => Reports) p) : Reports p := by
  induction h with
  | part hp => exact hp
  | pure a => exact fun s => .pure fun _ ht => ht
  | bind _ _ ihp ihf => exact fun s => (ihp s).bind fun a => ihf a s
  | look f => exact fun s => (Tracks.look f).bind fun a => .pure fun _ ht => ht.1
  | stop f => exact fun s => .stop fun _ ht => ht
  | takeFront =>
      refine of (fun s t a h => ?_) fun s t e h => by cases h
      obtain ⟨-, rfl⟩ := EStateM.Result.ok.inj h
      exact .ofSuffix (State.Leads.dropFront s).rest rfl
  | takeComments =>
      refine of (fun s t a h => ?_) fun s t e h => by cases h
      obtain ⟨-, rfl⟩ := EStateM.Result.ok.inj h
      exact .ofSuffix (State.Leads.takeComments s).rest rfl
  | oneDeeper _ ih => exact ih.oneDeeper
  | onDirectiveLine _ ih => exact ih.onDirectiveLine
  | loop _ ih =>
      intro s
      refine .loop (I := fun _ => Notes s) (fun a t ht => ?_) (fun _ _ ht => ht) fun _ ht => ht
      refine ⟨fun turn u hu => ?_, (ih a s ht).2⟩
      have hnotes := (ih a s ht).1 hu
      cases turn with
      | again _ => exact hnotes
      | done _ => exact hnotes

end Reports

/-! ## Struct bodies -/

variable {s : State}

/-- A group in braces is passed over as part of one note. -/
theorem Tracks.passBraces (pending : List Token) :
    Tracks s (NotesBefore s pending) (passBraces pending) (NotesBefore s) := by
  refine .bind (Q := fun b : Nat × List Token => NotesBefore s b.2) ?_
    fun (depth, passed) => .pure fun _ ht => ht
  refine .loop (I := fun b : Nat × List Token => NotesBefore s b.2) ?_ (fun _ _ ht => ht.notes)
    fun _ ht => ht
  rintro ⟨depth, passed⟩
  have htake : ∀ token : Token, token.kind ≠ .endOfInput → ∀ u,
      (∃ t, NotesBefore s passed t ∧ t.front = token ∧ t.dropFront = u) →
        NotesBefore s (token :: passed) u := by
    rintro token hk u ⟨t, ht, rfl, rfl⟩
    exact ht.take (State.open_of_front hk)
  refine .bind .takeFront fun token => ?_
  split
  · refine .pure ?_
    rintro u ⟨t, ht, -, rfl⟩
    exact ht.pass (State.Leads.dropFront t).rest rfl
  · rename_i hk
    exact .pure (htake token (by simp [hk]))
  · rename_i hk
    have hmore := htake token (by simp [hk])
    exact .ite (fun _ => .pure hmore) fun _ => .pure hmore
  · rename_i hk _ _
    exact .ite (fun _ => .pure (htake token hk)) fun _ => .pure (htake token hk)

/-- All runs of tokens that a struct body passes over are reported, each before what is read behind
it. -/
theorem Reports.structBody {r : Rules} (hmembers : Reports (structMembers r)) (tag : String) :
    Reports (structBody r tag) := by
  intro s
  have hreport : ∀ pending, Tracks s (NotesBefore s pending) (reportPassed tag pending) fun _ =>
      Notes s := by
    intro pending t ht
    refine ⟨fun a u h => ht.report h, fun e u h => ?_⟩
    rw [reportPassed] at h
    cases hlast : pending.getLast? with
    | none =>
        rw [hlast] at h
        cases h
    | some first =>
        rw [hlast] at h
        cases h
  refine .bind (Q := fun body => NotesBefore s body.passed) ?_ fun body =>
    .bind (hreport body.passed) fun _ => .pure fun _ ht => ht
  refine .loop (I := fun body : StructBody => NotesBefore s body.passed) ?_
    (fun _ _ ht => ht.notes) fun _ ht => ht.before
  intro body
  refine .bind (.look _) fun kind => .ite (fun _ => .pure fun _ ht => ht.1) fun _ =>
    .ite (fun _ => .stop fun _ ht => ht.1.notes) fun hk => .ite (fun _ => ?_) fun _ =>
    .ite (fun _ => ?_) fun _ => ?_
  · refine .bind ((hreport body.passed).mono fun _ ht => ht.1) fun _ => .bind (hmembers s) fun _ =>
      .pure fun _ ht => ht.before
  · refine .bind ?_ fun _ => .pure fun _ ht => ht
    exact (Tracks.passBraces body.passed).mono fun _ ht => ht.1
  · refine .bind .takeFront fun token => .pure ?_
    rintro u ⟨t, ⟨ht, rfl⟩, rfl, rfl⟩
    exact ht.take (State.open_of_front hk)

/-- The rules of the grammar report. -/
theorem Rules.level_reports (levels : Nat) :
    (Rules.level levels).Assembled fun _ => Reports := by
  refine (Rules.level_assembled .goDeeper (fun r hr => ?_) levels).toAssembled
  exact .structBody (.ofAssembled (.structMembers hr))

theorem Reports.item (levels : Nat) : Reports (item (.level levels)) :=
  .ofAssembled (.item (Rules.level_reports levels))

/-! ## Notes made before -/

/-- The state with the first `n` notes replaced. -/
def State.renoted (n : Nat) (notes : List SkippedMember) (s : State) : State :=
  { s with warnings := notes ++ s.warnings.drop n }

/-- What a run comes to, with the first `n` notes replaced. -/
def renotedResult {α : Type} (n : Nat) (notes : List SkippedMember) :
    EStateM.Result Failure State α → EStateM.Result Failure State α
  | .ok a t => .ok a (t.renoted n notes)
  | .error e t => .error e (t.renoted n notes)

section

variable {n : Nat} {notes : List SkippedMember}

theorem rounds_renoted {α : Type} {round : α → Parse (Turn α)}
    (hround : ∀ a s, n ≤ s.warnings.length →
      round a (s.renoted n notes) = renotedResult n notes (round a s) ∧
        ∀ turn t, round a s = .ok turn t → n ≤ t.warnings.length)
    {fuel : List Token} {a : α} {s : State} (hs : n ≤ s.warnings.length) :
    rounds round fuel a (s.renoted n notes) = renotedResult n notes (rounds round fuel a s) := by
  induction fuel generalizing a s with
  | nil =>
      rw [rounds, bind_apply, bind_apply, (hround a s hs).1]
      cases round a s with
      | ok turn t => cases turn <;> rfl
      | error e t => rfl
  | cons _ fuel ih =>
      rw [rounds, bind_apply, bind_apply, (hround a s hs).1]
      cases hturn : round a s with
      | ok turn t =>
          cases turn with
          | again b => exact ih ((hround a s hs).2 _ t hturn)
          | done b => rfl
      | error e t => rfl

theorem goDeeper_renoted (s : State) :
    goDeeper (s.renoted n notes) = renotedResult n notes (goDeeper s) := by
  unfold goDeeper
  by_cases hdepth : s.depth < s.limit
  · rw [if_pos hdepth]
    exact if_pos hdepth
  · rw [if_neg hdepth]
    exact if_neg hdepth

/-- No reader looks at the notes that were made before. -/
theorem Composed.renoted {α : Type} {p : Parse α} (hp : Composed true true p) {s : State}
    (hs : n ≤ s.warnings.length) :
    p (s.renoted n notes) = renotedResult n notes (p s) := by
  induction hp generalizing s with
  | pure a => rfl
  | @bind _ _ p f hp _ ihp ihf =>
      rw [bind_apply, bind_apply, ihp hs]
      cases ha : p s with
      | ok a t => exact ihf a (Nat.le_trans hs (hp.leads ha).warnings.length_le)
      | error e t => rfl
  | look f => rfl
  | stop f => rfl
  | takeFront => rfl
  | note w =>
      show EStateM.Result.ok () { s with warnings := notes ++ s.warnings.drop n ++ [w] } =
        .ok () { s with warnings := notes ++ (s.warnings ++ [w]).drop n }
      rw [List.drop_append_of_le_length hs, List.append_assoc]
  | goDeeper => exact goDeeper_renoted s
  | @oneDeeper _ p _ ih =>
      unfold Grammar.oneDeeper
      rw [goDeeper_renoted]
      cases hdeeper : Grammar.goDeeper s with
      | error e t => rfl
      | ok _ t =>
          have hleads := goDeeper.leads hdeeper
          have hin := ih (Nat.le_trans hs hleads.warnings.length_le)
          dsimp only [renotedResult]
          rw [hin]
          cases p t <;> rfl
  | @onDirectiveLine _ p _ _ ih =>
      have hin := ih (s := { s with onLine := true }) hs
      change p { s.renoted n notes with onLine := true } = _ at hin
      unfold Grammar.onDirectiveLine
      rw [hin]
      cases p { s with onLine := true } <;> rfl
  | loop hround ih =>
      exact rounds_renoted (fun a t ht => ⟨ih a ht, fun turn u hu =>
        Nat.le_trans ht ((hround a).leads hu).warnings.length_le⟩) hs
  | takeComments _ => rfl

end

/-! ## The texts of notes -/

theorem SkippedMember.toList_message (w : SkippedMember) :
    ∃ more, w.message.toList = "line ".toList ++ (Nat.toDigits 10 w.line ++ ':' :: more) := by
  refine ⟨" struct '".toList ++ w.tag.toList ++ "': skipped unsupported member `".toList ++
    (" ".intercalate w.texts ++ "`").toList, ?_⟩
  simp [message, toString, String.toList_append, Nat.toList_repr]

/-- The text of a note shows its line. -/
theorem SkippedMember.line_eq_of_message {w w' : SkippedMember} (h : w.message = w'.message) :
    w.line = w'.line := by
  obtain ⟨more, hmore⟩ := w.toList_message
  obtain ⟨more', hmore'⟩ := w'.toList_message
  rw [h, hmore'] at hmore
  have hdigits : ∀ n cs, (Nat.toDigits 10 n ++ ':' :: cs).takeWhile Char.isDigit =
      Nat.toDigits 10 n := by
    intro n cs
    have hall : ∀ c ∈ Nat.toDigits 10 n, c.isDigit = true := fun c hc =>
      Nat.isDigit_of_mem_toDigits (by decide) (by decide) hc
    have hcolon : Char.isDigit ':' = false := by decide
    simp [List.takeWhile_append_of_pos hall, hcolon]
  have hlines := congrArg (List.takeWhile Char.isDigit) (List.append_cancel_left hmore)
  rw [hdigits, hdigits] at hlines
  rw [← Nat.ofDigitChars_ten_toDigits (n := w.line), ← hlines, Nat.ofDigitChars_ten_toDigits]

end Grammar
end CSurvey
