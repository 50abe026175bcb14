import CSurvey.Proofs.Grammar.Alone
import CSurvey.Proofs.Grammar.Extent
import CSurvey.Proofs.Grammar.FailedLine
import CSurvey.Proofs.Grammar.Nesting

/-! # Directive lines that are read

A directive line that is read is left where a line ends. It is the line of the directive if it can be
read from that line alone. It cannot where the value of a definition opens the body of a struct and
the line ends in it: the body is read over the newline, and the rest of the definition behind it. -/

namespace CSurvey.Grammar

/-- The readers of directive lines. -/
inductive ReadsDirective (r : Rules) : Parse Node → Prop where
  | inclusion : ReadsDirective r inclusion
  | macroDefinition : ReadsDirective r (macroDefinition r)
  | otherDirective : ReadsDirective r otherDirective

/-! ## The marker -/

section

variable {s : State} {t marker : Token} {after : List Token}

/-- A token that counts and stands first is the next one. -/
theorem State.upcoming_of_counts (hrest : s.rest = t :: after) (ht : s.isPassed t = false) :
    s.upcoming = t :: after := by
  rw [State.upcoming, hrest, List.dropWhile_cons_of_neg (by simp [ht])]

theorem State.front_of_counts (hrest : s.rest = t :: after) (ht : s.isPassed t = false) :
    s.front = t := by
  rw [State.front, State.upcoming_of_counts hrest ht]
  rfl

theorem takeFront_of_counts (hrest : s.rest = t :: after) (ht : s.isPassed t = false) :
    takeFront s = .ok t { s with rest := after } := by
  have hup := State.upcoming_of_counts hrest ht
  have hnone : s.rest.takeWhile s.isPassed = [] := by
    have hsplit : s.rest.takeWhile s.isPassed ++ s.upcoming = s.rest :=
      List.takeWhile_append_dropWhile
    exact List.append_left_eq_self.mp (hsplit.trans (hrest.trans hup.symm))
  rw [takeFront, State.front_of_counts hrest ht, State.dropFront, State.passTrivia, hnone, hup]
  simp

theorem State.isPassed_marker (s : State) (hmarker : marker.kind.isDirective = true) :
    s.isPassed marker = false := by
  obtain ⟨hcomment, hnewline, -⟩ := Token.Kind.counts_of_isDirective hmarker
  simp [State.isPassed, hcomment, hnewline]

theorem State.upcoming_marker (hrest : s.rest = marker :: after)
    (hmarker : marker.kind.isDirective = true) : s.upcoming = marker :: after :=
  State.upcoming_of_counts hrest (s.isPassed_marker hmarker)

theorem State.open_marker (hrest : s.rest = marker :: after)
    (hmarker : marker.kind.isDirective = true) : s.Open := by
  rw [State.Open, State.upcoming_marker hrest hmarker]
  exact List.cons_ne_nil _ _

theorem State.front_marker (hrest : s.rest = marker :: after)
    (hmarker : marker.kind.isDirective = true) : s.front = marker :=
  State.front_of_counts hrest (s.isPassed_marker hmarker)

theorem takeFront_marker (hrest : s.rest = marker :: after)
    (hmarker : marker.kind.isDirective = true) :
    takeFront s = .ok marker { s with rest := after } :=
  takeFront_of_counts hrest (s.isPassed_marker hmarker)

end

/-! ## Ends of lines -/

/-- What comes next ends a line. -/
def State.LineEnds (s : State) : Prop :=
  s.front.kind = .newline ∨ s.front.kind = .endOfInput

/-- Before the end of a line there is nothing but comments. -/
theorem State.LineEnds.isComment {s : State} (h : s.LineEnds) (hline : s.onLine = true)
    (hends : ∀ u ∈ s.rest, u.kind ≠ .endOfInput) :
    ∀ u ∈ lineOf s.rest, u.kind.isComment = true := by
  have hnone : lineOf s.upcoming = [] := by
    cases hup : s.upcoming with
    | nil => rfl
    | cons v vs =>
        have hv : v ∈ s.rest := (List.dropWhile_suffix s.isPassed).mem (by
          show v ∈ s.upcoming
          rw [hup]
          exact List.mem_cons_self ..)
        rw [State.LineEnds, State.front, hup] at h
        exact List.takeWhile_cons_of_neg (by simpa using h.resolve_right (hends v hv))
  intro u hu
  rw [← List.takeWhile_append_dropWhile (p := s.isPassed) (l := s.rest), lineOf,
    List.takeWhile_append] at hu
  have hpassed : u ∈ s.rest.takeWhile s.isPassed := by
    split at hu
    · rcases List.mem_append.mp hu with hu | hu
      · exact hu
      · change u ∈ lineOf s.upcoming at hu
        rw [hnone] at hu
        contradiction
    · exact (List.takeWhile_prefix _).mem hu
  simpa [State.isPassed, hline] using List.mem_takeWhile_imp hpassed

/-- The second state is further on in the line at hand: no newline was taken on the way. -/
structure State.GoesAlong (s t : State) : Prop where
  taken : ∃ taken, s.rest = taken ++ t.rest ∧ ∀ u ∈ taken, u.kind ≠ .newline
  onLine : t.onLine = true

namespace State.GoesAlong

variable {s t u : State}

theorem refl (h : s.onLine = true) : s.GoesAlong s :=
  ⟨⟨[], rfl, by simp⟩, h⟩

theorem trans (h : s.GoesAlong t) (h' : t.GoesAlong u) : s.GoesAlong u := by
  obtain ⟨taken, hs, htaken⟩ := h.taken
  obtain ⟨more, ht, hmore⟩ := h'.taken
  exact ⟨⟨taken ++ more, by rw [hs, ht, List.append_assoc],
    List.forall_mem_append.mpr ⟨htaken, hmore⟩⟩, h'.onLine⟩

/-- A token that is no newline is taken with the comments before it. -/
theorem dropFront (h : s.onLine = true) (hfront : s.front.kind ≠ .newline) :
    s.GoesAlong s.dropFront := by
  refine ⟨⟨s.rest.takeWhile s.isPassed ++ s.upcoming.take 1, ?_, ?_⟩, h⟩
  · show s.rest = _ ++ s.upcoming.drop 1
    rw [List.append_assoc, List.take_append_drop]
    exact List.takeWhile_append_dropWhile.symm
  · refine List.forall_mem_append.mpr ⟨fun v hv hnewline => ?_, fun v hv => ?_⟩
    · have hpassed := List.mem_takeWhile_imp hv
      simp [State.isPassed, h, hnewline, Token.Kind.isComment] at hpassed
    · cases hup : s.upcoming with
      | nil =>
          rw [hup] at hv
          contradiction
      | cons w ws =>
          rw [hup] at hv
          obtain rfl : v = w := by simpa using hv
          rwa [State.front, hup] at hfront

end State.GoesAlong

/-! ## Words of a line -/

section

variable {s t : State}

/-- A loop goes along if each of its rounds takes a token that is no newline. -/
theorem loop_goesAlong {α : Type} {round : α → Parse (Turn α)} {D : State → Prop} {a b : α}
    (hround : ∀ a v turn w, round a v = .ok turn w →
      turn.Holds (fun _ w => w = v.dropFront ∧ v.front.kind ≠ .newline)
        (fun _ w => w = v ∧ D w) w)
    (hline : s.onLine = true) (h : loop round a s = .ok b t) : s.GoesAlong t ∧ D t := by
  refine loop_ok (I := fun _ v => s.GoesAlong v) (D := fun _ v => s.GoesAlong v ∧ D v) ?_
    (.refl hline) h
  intro a v turn w hv hturn
  have hw := hround a v turn w hturn
  cases turn with
  | again _ =>
      obtain ⟨rfl, hfront⟩ := hw
      exact hv.trans (.dropFront hv.onLine hfront)
  | done _ =>
      obtain ⟨rfl, hD⟩ := hw
      exact ⟨hv, hD⟩

theorem lineTexts_ok {words : List String} (hline : s.onLine = true)
    (h : lineTexts s = .ok words t) : s.GoesAlong t ∧ t.LineEnds := by
  obtain ⟨found, u, hu, hwords⟩ := bind_eq_ok.mp h
  obtain ⟨-, rfl⟩ := pure_eq_ok.mp hwords
  refine loop_goesAlong (fun found v turn w hturn => ?_) hline hu
  obtain ⟨kind, x, hx, hturn⟩ := bind_eq_ok.mp hturn
  obtain ⟨hkind, rfl⟩ := frontKind_eq_ok.mp hx
  split at hturn
  · obtain ⟨rfl, rfl⟩ := pure_eq_ok.mp hturn
    exact ⟨rfl, .inl hkind⟩
  · obtain ⟨rfl, rfl⟩ := pure_eq_ok.mp hturn
    exact ⟨rfl, .inr hkind⟩
  · rename_i hnewline _
    obtain ⟨token, y, hy, hturn⟩ := bind_eq_ok.mp hturn
    obtain ⟨-, rfl⟩ := EStateM.Result.ok.inj hy
    obtain ⟨rfl, rfl⟩ := pure_eq_ok.mp hturn
    exact ⟨rfl, hkind ▸ hnewline⟩

theorem headerName_ok {text : String} (hline : s.onLine = true)
    (h : headerName s = .ok text t) : s.GoesAlong t := by
  obtain ⟨name, u, hu, htext⟩ := bind_eq_ok.mp h
  have hends : s.GoesAlong u ∧ u.front.kind = .operator .greater := by
    refine loop_goesAlong (D := fun v => v.front.kind = _) (fun name v turn w hturn => ?_) hline hu
    obtain ⟨kind, x, hx, hturn⟩ := bind_eq_ok.mp hturn
    obtain ⟨hkind, rfl⟩ := frontKind_eq_ok.mp hx
    split at hturn
    · obtain ⟨rfl, rfl⟩ := pure_eq_ok.mp hturn
      exact ⟨rfl, hkind⟩
    · cases hturn
    · cases hturn
    · rename_i hnewline _
      obtain ⟨token, y, hy, hturn⟩ := bind_eq_ok.mp hturn
      obtain ⟨-, rfl⟩ := EStateM.Result.ok.inj hy
      obtain ⟨rfl, rfl⟩ := pure_eq_ok.mp hturn
      exact ⟨rfl, hkind ▸ hnewline⟩
  obtain ⟨halong, hbracket⟩ := hends
  split at htext
  · cases htext
  · obtain ⟨token, y, hy, htext⟩ := bind_eq_ok.mp htext
    obtain ⟨-, rfl⟩ := EStateM.Result.ok.inj hy
    obtain ⟨-, rfl⟩ := pure_eq_ok.mp htext
    exact halong.trans (.dropFront halong.onLine (by simp [hbracket]))

theorem inclusionTarget_ok {text : String} (hline : s.onLine = true)
    (h : inclusionTarget s = .ok text t) : s.GoesAlong t := by
  obtain ⟨kind, x, hx, h⟩ := bind_eq_ok.mp h
  obtain ⟨hkind, rfl⟩ := frontKind_eq_ok.mp hx
  split at h
  · obtain ⟨token, y, hy, h⟩ := bind_eq_ok.mp h
    obtain ⟨-, rfl⟩ := EStateM.Result.ok.inj hy
    obtain ⟨-, rfl⟩ := pure_eq_ok.mp h
    exact .dropFront hline (by simp [hkind])
  · obtain ⟨token, y, hy, h⟩ := bind_eq_ok.mp h
    obtain ⟨-, rfl⟩ := EStateM.Result.ok.inj hy
    exact (State.GoesAlong.dropFront hline (by simp [hkind])).trans (headerName_ok hline h)
  · cases h

/-! ## Lines that are read -/

variable {marker : Token} {after : List Token} {node : Node} {levels : Nat}

theorem inclusion_ok (hrest : s.rest = marker :: after) (hmarker : marker.kind.isDirective = true)
    (h : inclusion s = .ok node t) :
    ∃ u, State.GoesAlong { s with rest := after, onLine := true } u ∧ u.LineEnds ∧
      t.rest = u.rest := by
  obtain ⟨first, u, hu, h⟩ := bind_eq_ok.mp h
  obtain ⟨-, rfl⟩ := EStateM.Result.ok.inj ((takeFront_marker hrest hmarker).symm.trans hu)
  obtain ⟨target, v, hv, h⟩ := bind_eq_ok.mp h
  obtain ⟨-, rfl⟩ := pure_eq_ok.mp h
  obtain ⟨w, hw, rfl⟩ := onDirectiveLine_eq_ok.mp hv
  obtain ⟨text, x, hx, hw⟩ := bind_eq_ok.mp hw
  obtain ⟨words, y, hy, hw⟩ := bind_eq_ok.mp hw
  obtain ⟨-, rfl⟩ := pure_eq_ok.mp hw
  have htarget := inclusionTarget_ok rfl hx
  obtain ⟨hwords, hline⟩ := lineTexts_ok htarget.onLine hy
  exact ⟨y, htarget.trans hwords, hline, rfl⟩

/-- Of the value of a definition it is only known that it is read in line mode. -/
theorem macroDefinition_ok (h : macroDefinition (.level levels) s = .ok node t) :
    node.kind = .macroDefinition ∧ ∃ u : State, u.onLine = true ∧ u.LineEnds ∧ t.rest = u.rest := by
  obtain ⟨first, u, -, h⟩ := bind_eq_ok.mp h
  obtain ⟨w, hw, rfl⟩ := onDirectiveLine_eq_ok.mp h
  obtain ⟨name, x, hx, hw⟩ := bind_eq_ok.mp hw
  obtain ⟨value, y, hy, hw⟩ := bind_eq_ok.mp hw
  obtain ⟨words, z, hz, hw⟩ := bind_eq_ok.mp hw
  obtain ⟨rfl, rfl⟩ := pure_eq_ok.mp hw
  have hname : Composed true true (require .identifier .afterDefine) := .require _ _
  have hvalue : Composed true true (macroValue (.level levels)) :=
    .relax (.macroValue (Rules.level_composed levels))
  obtain ⟨hwords, hline⟩ := lineTexts_ok ((hname.leads hx).trans (hvalue.leads hy)).onLine hz
  exact ⟨rfl, z, hwords.onLine, hline, rfl⟩

theorem otherDirective_ok (h : otherDirective s = .ok node t) :
    ∃ u, State.GoesAlong { s with onLine := true } u ∧ u.LineEnds ∧ t.rest = u.rest := by
  obtain ⟨location, u, hu, h⟩ := bind_eq_ok.mp h
  obtain ⟨-, rfl⟩ := EStateM.Result.ok.inj hu
  obtain ⟨words, v, hv, h⟩ := bind_eq_ok.mp h
  obtain ⟨-, rfl⟩ := pure_eq_ok.mp h
  obtain ⟨w, hw, rfl⟩ := onDirectiveLine_eq_ok.mp hv
  obtain ⟨hwords, hline⟩ := lineTexts_ok rfl hw
  exact ⟨w, hwords, hline, rfl⟩

end

/-! ## The line of a directive -/

theorem newline_of_behindLine (tokens : List Token) :
    ∀ u ∈ (behindLine tokens).head?, u.kind = .newline := by
  intro u hu
  have hnot := List.head?_dropWhile_not (fun v : Token => v.kind ≠ .newline) tokens
  change (tokens.dropWhile fun v => v.kind ≠ .newline).head? = some u at hu
  rw [hu] at hnot
  simpa using hnot

namespace ReadsDirective

variable {levels : Nat} {p : Parse Node} {s t : State} {marker : Token} {after : List Token}
  {node : Node}

theorem composed (hp : ReadsDirective (.level levels) p) : Composed true true p := by
  cases hp with
  | inclusion => exact .inclusion
  | macroDefinition => exact .relax (.macroDefinition (Rules.level_composed levels))
  | otherDirective => exact .otherDirective

/-- A directive is left where a line ends, and only a definition takes a newline. -/
theorem leaves (hp : ReadsDirective (.level levels) p) (hrest : s.rest = marker :: after)
    (hmarker : marker.kind.isDirective = true) (hends : ∀ u ∈ t.rest, u.kind ≠ .endOfInput)
    (h : p s = .ok node t) :
    (∀ u ∈ lineOf t.rest, u.kind.isComment = true) ∧
      (node.kind ≠ .macroDefinition →
        ∃ taken, s.rest = taken ++ t.rest ∧ ∀ u ∈ taken, u.kind ≠ .newline) := by
  obtain ⟨-, hnewline, -⟩ := Token.Kind.counts_of_isDirective hmarker
  cases hp with
  | inclusion =>
      obtain ⟨u, halong, hline, hsame⟩ := inclusion_ok hrest hmarker h
      rw [hsame] at hends ⊢
      refine ⟨hline.isComment halong.onLine hends, fun _ => ?_⟩
      obtain ⟨taken, htaken, hnone⟩ := halong.taken
      refine ⟨marker :: taken, ?_, List.forall_mem_cons.mpr ⟨hnewline, hnone⟩⟩
      exact hrest.trans (congrArg (List.cons marker) htaken)
  | macroDefinition =>
      obtain ⟨hkind, u, hmode, hline, hsame⟩ := macroDefinition_ok h
      rw [hsame] at hends ⊢
      exact ⟨hline.isComment hmode hends, fun hother => absurd hkind hother⟩
  | otherDirective =>
      obtain ⟨u, halong, hline, hsame⟩ := otherDirective_ok h
      rw [hsame] at hends ⊢
      exact ⟨hline.isComment halong.onLine hends, fun _ => halong.taken⟩

/-- What is left is behind the marker. -/
theorem suffix (hp : ReadsDirective (.level levels) p) (hrest : s.rest = marker :: after)
    (hmarker : marker.kind.isDirective = true) (hends : ∀ u ∈ after, u.kind ≠ .endOfInput)
    (h : p s = .ok node t) : t.rest <:+ after := by
  obtain ⟨hcomment, hnewline, hend⟩ := Token.Kind.counts_of_isDirective hmarker
  obtain hall | hsuffix := List.suffix_cons_iff.mp (hrest ▸ (hp.composed.leads h).rest)
  · -- The marker would stand before the end of a line, where there are only comments.
    have hnone : ∀ u ∈ t.rest, u.kind ≠ .endOfInput := hall ▸ List.forall_mem_cons.mpr ⟨hend, hends⟩
    have honly := (hp.leaves hrest hmarker hnone h).1
    rw [hall, lineOf, List.takeWhile_cons_of_pos (by simpa using hnewline)] at honly
    rw [honly marker (List.mem_cons_self ..)] at hcomment
    contradiction
  · exact hsuffix

/-! ## The line on its own -/

theorem not_runsOut (hp : ReadsDirective (.level levels) p) (h : s.rest.length < levels) :
    ¬RunsOut (p s) := by
  cases hp with
  | inclusion => exact ((Linked.inclusion (P := Always) trivial).2 (.inl trivial)).2
  | macroDefinition =>
      have hroom : s.Room levels (s.limit - s.depth + 1) levels := State.room_of_length_lt h
      exact ((Linked.macroDefinition (linked_level_self levels _) hroom).2 (.inl trivial)).2
  | otherDirective => exact ((Linked.otherDirective (P := Always) trivial).2 (.inl trivial)).2

theorem repeats (m : Seam) (hp : ReadsDirective (.level levels) p) :
    Repeats m Always State.Open p p := by
  cases hp with
  | inclusion => exact .inclusion
  | macroDefinition => exact .macroDefinition (Rules.level_repeats m levels)
  | otherDirective => exact .otherDirective

/-- What is made of a result is had if the result is. -/
theorem comesTo_bind_pure {α β : Type} {q : Parse α} {f : α → β} {s : State} {a : α}
    (h : (∃ t, q s = .ok a t) ∨ RunsOut (q s)) :
    (∃ t, (q >>= fun a => pure (f a)) s = .ok (f a) t) ∨
      RunsOut ((q >>= fun a => pure (f a)) s) := by
  rcases h with ⟨t, ht⟩ | hout
  · exact .inl ⟨t, bind_eq_ok.mpr ⟨a, t, ht, rfl⟩⟩
  · rw [bind_apply]
    exact .inr (Sieve.runsOut_bind _ hout)

/-- A line that a directive does not go beyond is read in the same way without those behind it. -/
theorem alone {b : Below} {line : List Token} (hp : ReadsDirective (.level levels) p)
    (hrest : s.rest = marker :: (line ++ b.tokens)) (hmarker : marker.kind.isDirective = true)
    (h : p s = .ok node t) (ht : b.tokens <:+ t.rest) :
    (∃ t', p { s with rest := marker :: line } = .ok node t') ∨
      RunsOut (p { s with rest := marker :: line }) := by
  have htake : takeFront { s with rest := marker :: line } = .ok marker { s with rest := line } :=
    takeFront_marker rfl hmarker
  cases hp with
  | inclusion =>
      obtain ⟨first, u, hu, h⟩ := bind_eq_ok.mp h
      obtain ⟨rfl, rfl⟩ := EStateM.Result.ok.inj ((takeFront_marker hrest hmarker).symm.trans hu)
      obtain ⟨target, v, hv, h⟩ := bind_eq_ok.mp h
      obtain ⟨rfl, rfl⟩ := pure_eq_ok.mp h
      have hread : Alone b Always (inclusionTarget >>= fun target =>
          lineTexts >>= fun _ => pure target) :=
        .bind .inclusionTarget fun _ => .bind .lineTexts fun _ => .pure _
      rw [Grammar.inclusion, bind_apply, htake]
      exact comesTo_bind_pure (hread.onDirectiveLine hv ht)
  | macroDefinition =>
      obtain ⟨first, u, hu, h⟩ := bind_eq_ok.mp h
      obtain ⟨rfl, rfl⟩ := EStateM.Result.ok.inj ((takeFront_marker hrest hmarker).symm.trans hu)
      rw [Grammar.macroDefinition, bind_apply, htake]
      refine Alone.onDirectiveLine ?_ h ht
      exact .bind (.require ⟨by simp, by simp⟩ _) fun _ =>
        .bind (.macroValue (Rules.level_alone b levels)) fun _ => .bind .lineTexts fun _ => .pure _
  | otherDirective =>
      obtain ⟨location, u, hu, h⟩ := bind_eq_ok.mp h
      obtain ⟨rfl, rfl⟩ := EStateM.Result.ok.inj hu
      obtain ⟨words, v, hv, h⟩ := bind_eq_ok.mp h
      obtain ⟨rfl, rfl⟩ := pure_eq_ok.mp h
      rw [State.front_marker hrest hmarker, Grammar.otherDirective, bind_apply, here,
        State.front_marker rfl hmarker]
      have hline : { s with rest := marker :: line ++ b.tokens } = s := by
        rw [List.cons_append, ← hrest]
      rw [← hline] at hv
      exact comesTo_bind_pure (Alone.lineTexts.onDirectiveLine hv ht)

/-- A directive that does not go beyond its line can be read from that line alone. -/
theorem reads_line (hp : ReadsDirective (.level levels) p) (hlevels : s.rest.length < levels)
    (hrest : s.rest = marker :: after) (hmarker : marker.kind.isDirective = true)
    (h : p s = .ok node t) (hsame : behindLine after = behindLine t.rest) :
    ∃ t', p { s with rest := marker :: lineOf after } = .ok node t' := by
  have hsplit := lineOf_append_behindLine after
  cases hbehind : behindLine after with
  | nil =>
      rw [hbehind, List.append_nil] at hsplit
      rw [hsplit, ← hrest]
      exact ⟨t, h⟩
  | cons newline more =>
      let b : Below := ⟨newline, more, newline_of_behindLine after newline (by simp [hbehind])⟩
      have hbelow : b.tokens = behindLine after := hbehind.symm
      have hline : s.rest = marker :: (lineOf after ++ b.tokens) := by
        rw [hbelow, hsplit, hrest]
      have hleft : b.tokens <:+ t.rest := by
        rw [hbelow, hsame]
        exact List.dropWhile_suffix _
      have hfew : (marker :: lineOf after).length < levels := by
        rw [hrest] at hlevels
        exact Nat.lt_of_le_of_lt (Nat.succ_le_succ (List.takeWhile_prefix _).length_le) hlevels
      exact (hp.alone hline hmarker h hleft).resolve_right (hp.not_runsOut hfew)

/-- A directive that can be read from its line alone leaves the lines behind. -/
theorem rest_of_line (hp : ReadsDirective (.level levels) p) (hrest : s.rest = marker :: after)
    (hmarker : marker.kind.isDirective = true) (h : p s = .ok node t) {t' : State}
    (ht' : p { s with rest := marker :: lineOf after } = .ok node t') :
    t.rest = t'.rest ++ behindLine after := by
  let m : Seam := ⟨id, behindLine after, newline_of_behindLine after⟩
  have hover : m.Over { s with rest := marker :: lineOf after } s := by
    refine ⟨?_, fun _ => rfl, rfl, rfl, rfl, (Node.move_id s.comments).symm⟩
    show s.rest = (marker :: lineOf after).map id ++ behindLine after
    rw [List.map_id, List.cons_append, lineOf_append_behindLine, hrest]
  obtain ⟨u, hu, hover'⟩ :=
    (hp.repeats m).ok (State.open_marker rfl hmarker) hover ht' (.inr trivial)
  obtain ⟨-, rfl⟩ := EStateM.Result.ok.inj (h.symm.trans hu)
  have hrest' : t.rest = t'.rest.map id ++ behindLine after := hover'.rest
  rwa [List.map_id] at hrest'

end ReadsDirective

/-- A directive that is read is left before the end of a line with only comments in between. It is
the end of its own line exactly if the directive can be read from that line alone, and always but
for definitions. -/
theorem directive_line {levels : Nat} {p : Parse Node} {s t : State} {marker : Token}
    {after : List Token} {node : Node} (hp : ReadsDirective (.level levels) p)
    (hlevels : s.rest.length < levels) (hrest : s.rest = marker :: after)
    (hmarker : marker.kind.isDirective = true) (hends : ∀ u ∈ after, u.kind ≠ .endOfInput)
    (h : p s = .ok node t) :
    ∃ taken, after = taken ++ t.rest ∧ (∀ u ∈ lineOf t.rest, u.kind.isComment = true) ∧
      ((∀ u ∈ taken, u.kind ≠ .newline) ↔
        ∃ t', p { s with rest := marker :: lineOf after } = .ok node t') ∧
      (node.kind ≠ .macroDefinition → ∀ u ∈ taken, u.kind ≠ .newline) := by
  obtain ⟨taken, htaken⟩ := hp.suffix hrest hmarker hends h
  have hleft : ∀ u ∈ t.rest, u.kind ≠ .endOfInput := fun u hu =>
    hends u (htaken ▸ List.mem_append_right taken hu)
  obtain ⟨hcomments, hwords⟩ := hp.leaves hrest hmarker hleft h
  refine ⟨taken, htaken.symm, hcomments, ⟨fun hnone => ?_, ?_⟩, fun hkind => ?_⟩
  · refine hp.reads_line hlevels hrest hmarker h ?_
    rw [← htaken]
    exact List.dropWhile_append_of_pos (by simpa using hnone)
  · rintro ⟨t', ht'⟩ u hu
    have hline : lineOf after = taken ++ t'.rest := by
      apply (List.append_left_inj (behindLine after)).mp
      have hleaves := hp.rest_of_line hrest hmarker h ht'
      rw [lineOf_append_behindLine, List.append_assoc, ← hleaves, htaken]
    have hmem : u ∈ lineOf after := hline ▸ List.mem_append_left _ hu
    simpa using List.mem_takeWhile_imp hmem
  · obtain ⟨passed, hpassed, hnone⟩ := hwords hkind
    have hsame : passed = marker :: taken := by
      apply (List.append_left_inj t.rest).mp
      rw [← hpassed, hrest, ← htaken]
      rfl
    rw [hsame] at hnone
    exact (List.forall_mem_cons.mp hnone).2

/-- The line of a definition ends before its newline, with a comment left behind its value. -/
theorem directive_line_number :
    let marker : Token := ⟨.directive .definition, "#define", ⟨1, 1⟩⟩
    let after : List Token := [⟨.identifier, "N", ⟨1, 9⟩⟩, ⟨.number, "5", ⟨1, 11⟩⟩,
      ⟨.lineComment, "// n", ⟨1, 13⟩⟩, ⟨.newline, "\n", ⟨1, 17⟩⟩, ⟨.identifier, "x", ⟨2, 1⟩⟩]
    let s : State := ⟨marker :: after, ⟨2, 2⟩, 48, 0, false, [], []⟩
    ∃ node t taken, macroDefinition (.level 7) s = .ok node t ∧ after = taken ++ t.rest ∧
      ∀ u ∈ taken, u.kind ≠ .newline := by
  intro marker after s
  have hboth : (match macroDefinition (.level 7) s,
      macroDefinition (.level 7) { s with rest := marker :: lineOf after } with
    | .ok node _, .ok node' _ => decide (node = node')
    | _, _ => false) = true := by decide +kernel
  split at hboth
  · rename_i node t node' t' h h'
    obtain rfl := of_decide_eq_true hboth
    obtain ⟨taken, htaken, -, hline, -⟩ :=
      directive_line .macroDefinition (by decide) rfl rfl (by decide) h
    exact ⟨node, t, taken, h, htaken, hline.mpr ⟨t', h'⟩⟩
  · exact absurd hboth Bool.false_ne_true

/-- A value that opens the body of a struct is read over the newlines in that body. -/
theorem macroDefinition_structBody :
    let marker : Token := ⟨.directive .definition, "#define", ⟨1, 1⟩⟩
    let after : List Token := [⟨.identifier, "X", ⟨1, 9⟩⟩, ⟨.keyword .sizeofKw, "sizeof", ⟨1, 11⟩⟩,
      ⟨.delimiter .leftParen, "(", ⟨1, 17⟩⟩, ⟨.keyword .structKw, "struct", ⟨1, 18⟩⟩,
      ⟨.identifier, "A", ⟨1, 25⟩⟩, ⟨.delimiter .leftBrace, "\x7b", ⟨1, 27⟩⟩,
      ⟨.newline, "\n", ⟨1, 28⟩⟩, ⟨.keyword .intKw, "int", ⟨2, 1⟩⟩, ⟨.identifier, "y", ⟨2, 5⟩⟩,
      ⟨.delimiter .semicolon, ";", ⟨2, 6⟩⟩, ⟨.newline, "\n", ⟨2, 7⟩⟩,
      ⟨.delimiter .rightBrace, "\x7d", ⟨3, 1⟩⟩, ⟨.delimiter .rightParen, ")", ⟨3, 2⟩⟩,
      ⟨.newline, "\n", ⟨3, 3⟩⟩]
    let s : State := ⟨marker :: after, ⟨4, 1⟩, 48, 0, false, [], []⟩
    ∃ node t taken, macroDefinition (.level 16) s = .ok node t ∧ after = taken ++ t.rest ∧
      ∃ u ∈ taken, u.kind = .newline := by
  intro marker after s
  have hread : (match macroDefinition (.level 16) s with
    | .ok _ t => decide (t.rest = [⟨.newline, "\n", ⟨3, 3⟩⟩])
    | .error _ _ => false) = true := by decide +kernel
  split at hread
  · rename_i node t h
    have hrest := of_decide_eq_true hread
    refine ⟨node, t, after.take 13, h, ?_, ⟨.newline, "\n", ⟨1, 28⟩⟩, ?_, rfl⟩
    · rw [hrest]
      rfl
    · decide
  · exact absurd hread Bool.false_ne_true

end CSurvey.Grammar
