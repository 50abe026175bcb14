import CSurvey.Proofs.Grammar.Recovery

/-! # Options that matter

The limit on nesting and the wish to recover are looked at where something goes wrong and nowhere
else. A run that succeeds is the same run under any higher limit, and up to the first item that
fails a file is read alike with recovery and without it. -/

namespace CSurvey.Grammar

/-! ## A higher limit -/

/-- The state under another limit on nesting. -/
def State.limited (limit : Nat) (s : State) : State :=
  { s with limit }

theorem rounds_limited {α : Type} {round : α → Parse (Turn α)} {limit : Nat}
    (hround : ∀ a s turn t, s.limit ≤ limit → round a s = .ok turn t →
      t.limit = s.limit ∧ round a (s.limited limit) = .ok turn (t.limited limit))
    {fuel : List Token} {a b : α} {s t : State} (hle : s.limit ≤ limit)
    (h : rounds round fuel a s = .ok b t) :
    rounds round fuel a (s.limited limit) = .ok b (t.limited limit) := by
  induction h using rounds_induction with
  | done hturn => exact rounds_done (hround _ _ _ _ hle hturn).2 _
  | again _ hturn ih =>
      obtain ⟨hlimit, hturn'⟩ := hround _ _ _ _ hle hturn
      rw [rounds_again hturn']
      exact ih (hlimit ▸ hle)

/-- A run that succeeds is the same under a higher limit. -/
theorem Composed.limited {α : Type} {p : Parse α} {s t : State} {a : α} {limit : Nat}
    (hp : Composed true true p) (hle : s.limit ≤ limit) (h : p s = .ok a t) :
    p (s.limited limit) = .ok a (t.limited limit) := by
  induction hp generalizing s t with
  | pure _ =>
      obtain ⟨rfl, rfl⟩ := pure_eq_ok.mp h
      rfl
  | bind hp _ ihp ihf =>
      obtain ⟨b, u, hb, ha⟩ := bind_eq_ok.mp h
      have hlimit : u.limit ≤ limit := (hp.leads hb).limit ▸ hle
      exact bind_eq_ok.mpr ⟨b, _, ihp hle hb, ihf b hlimit ha⟩
  | look f =>
      obtain ⟨rfl, rfl⟩ := EStateM.Result.ok.inj h
      rfl
  | stop f =>
      simp at h
  | takeFront =>
      obtain ⟨rfl, rfl⟩ := EStateM.Result.ok.inj h
      rfl
  | note w =>
      obtain ⟨rfl, rfl⟩ := EStateM.Result.ok.inj h
      rfl
  | goDeeper =>
      unfold Grammar.goDeeper at h ⊢
      split at h
      · rename_i hdepth
        obtain ⟨rfl, rfl⟩ := EStateM.Result.ok.inj h
        exact if_pos (Nat.lt_of_lt_of_le hdepth hle)
      · simp at h
  | oneDeeper _ ih =>
      obtain ⟨hdepth, u, hu, rfl⟩ := oneDeeper_eq_ok.mp h
      have hin := ih (s := { s with depth := s.depth + 1 }) hle hu
      exact oneDeeper_eq_ok.mpr ⟨Nat.lt_of_lt_of_le hdepth hle, _, hin, rfl⟩
  | onDirectiveLine _ _ ih =>
      obtain ⟨u, hu, rfl⟩ := onDirectiveLine_eq_ok.mp h
      have hin := ih (s := { s with onLine := true }) hle hu
      exact onDirectiveLine_eq_ok.mpr ⟨_, hin, rfl⟩
  | loop hround ih =>
      exact rounds_limited
        (fun b u turn v hu hv => ⟨((hround b).leads hv).limit, ih b hu hv⟩) hle h
  | takeComments _ =>
      obtain ⟨rfl, rfl⟩ := EStateM.Result.ok.inj h
      rfl

/-- The reader fails because constructs nest too deep for the limit. -/
def TooDeep {α : Type} (p : Parse α) (s : State) : Prop :=
  ∃ place failed, p s = .error ⟨.tooDeep s.limit, place⟩ failed

theorem TooDeep.bind {α β : Type} {p : Parse α} {s : State} (h : TooDeep p s) (f : α → Parse β) :
    TooDeep (p >>= f) s := by
  obtain ⟨place, failed, h⟩ := h
  exact ⟨place, failed, bind_eq_error.mpr (.inl h)⟩

theorem TooDeep.next {α β : Type} {p : Parse α} {f : α → Parse β} {s u : State} {a : α}
    (hp : p s = .ok a u) (hlimit : u.limit = s.limit) (h : TooDeep (f a) u) :
    TooDeep (p >>= f) s := by
  obtain ⟨place, failed, h⟩ := h
  rw [hlimit] at h
  exact ⟨place, failed, bind_eq_error.mpr (.inr ⟨a, u, hp, h⟩)⟩

theorem TooDeep.rounds {α : Type} {round : α → Parse (Turn α)} {a : α} {s : State}
    (h : TooDeep (round a) s) (fuel : List Token) : TooDeep (Grammar.rounds round fuel a) s := by
  obtain ⟨place, failed, h⟩ := h
  exact ⟨place, failed, rounds_fails h fuel⟩

theorem rounds_ok_or_tooDeep {α : Type} {round : α → Parse (Turn α)} {limit : Nat}
    (hround : ∀ a s turn t, s.limit ≤ limit → round a (s.limited limit) = .ok turn t →
      t.limit = limit ∧ (round a s = .ok turn (t.limited s.limit) ∨ TooDeep (round a) s))
    {fuel : List Token} {a b : α} {s t : State} (hle : s.limit ≤ limit)
    (h : rounds round fuel a (s.limited limit) = .ok b t) :
    rounds round fuel a s = .ok b (t.limited s.limit) ∨ TooDeep (rounds round fuel a) s := by
  generalize hs : s.limited limit = s' at h
  induction h using rounds_induction generalizing s with
  | done hturn =>
      subst hs
      exact (hround _ _ _ _ hle hturn).2.imp (rounds_done · _) (·.rounds _)
  | @again x fuel a c s' u _ _ hturn ih =>
      subst hs
      obtain ⟨hlimit, hturn' | hdeep⟩ := hround _ _ _ _ hle hturn
      · have hsame : (u.limited s.limit).limited limit = u := by
          rw [← hlimit]
          rfl
        rcases ih (s := u.limited s.limit) hle hsame with hok | hdeep
        · exact .inl ((rounds_again hturn' x fuel).trans hok)
        · exact .inr (.next hturn' rfl hdeep)
      · exact .inr (hdeep.rounds _)

/-- What is read under a higher limit is read alike under the lower one, or nests too deep for
it. -/
theorem Composed.ok_or_tooDeep {α : Type} {p : Parse α} {s t : State} {a : α} {limit : Nat}
    (hp : Composed true true p) (hle : s.limit ≤ limit) (h : p (s.limited limit) = .ok a t) :
    p s = .ok a (t.limited s.limit) ∨ TooDeep p s := by
  induction hp generalizing s t with
  | pure _ =>
      obtain ⟨rfl, rfl⟩ := pure_eq_ok.mp h
      exact .inl rfl
  | @bind _ _ p f hp _ ihp ihf =>
      obtain ⟨b, u, hb, ha⟩ := bind_eq_ok.mp h
      have hlimit : u.limit = limit := (hp.leads hb).limit
      rcases ihp hle hb with hok | hdeep
      · have hsame : (u.limited s.limit).limited limit = u := by rw [← hlimit]; rfl
        rcases ihf b (s := u.limited s.limit) hle (hsame ▸ ha) with hok' | hdeep
        · exact .inl (bind_eq_ok.mpr ⟨b, _, hok, hok'⟩)
        · exact .inr (.next hok rfl hdeep)
      · exact .inr (hdeep.bind f)
  | look f =>
      obtain ⟨rfl, rfl⟩ := EStateM.Result.ok.inj h
      exact .inl rfl
  | stop f =>
      simp at h
  | takeFront =>
      obtain ⟨rfl, rfl⟩ := EStateM.Result.ok.inj h
      exact .inl rfl
  | note w =>
      obtain ⟨rfl, rfl⟩ := EStateM.Result.ok.inj h
      exact .inl rfl
  | goDeeper =>
      by_cases hdepth : s.depth < s.limit
      · have hdepth' : (s.limited limit).depth < (s.limited limit).limit :=
          Nat.lt_of_lt_of_le hdepth hle
        unfold Grammar.goDeeper at h ⊢
        rw [if_pos hdepth'] at h
        obtain ⟨rfl, rfl⟩ := EStateM.Result.ok.inj h
        exact .inl (if_pos hdepth)
      · exact .inr ⟨s.front.location, s, if_neg hdepth⟩
  | oneDeeper _ ih =>
      obtain ⟨-, u, hu, rfl⟩ := oneDeeper_eq_ok.mp h
      by_cases hdepth : s.depth < s.limit
      · rcases ih (s := { s with depth := s.depth + 1 }) hle hu with hok | ⟨place, failed, hdeep⟩
        · exact .inl (oneDeeper_eq_ok.mpr ⟨hdepth, _, hok, rfl⟩)
        · exact .inr ⟨place, _, oneDeeper_eq_error.mpr (.inr ⟨hdepth, failed, hdeep, rfl⟩)⟩
      · exact .inr ⟨_, s, oneDeeper_eq_error.mpr (.inl ⟨hdepth, rfl, rfl⟩)⟩
  | onDirectiveLine _ _ ih =>
      obtain ⟨u, hu, rfl⟩ := onDirectiveLine_eq_ok.mp h
      rcases ih (s := { s with onLine := true }) hle hu with hok | ⟨place, failed, hdeep⟩
      · exact .inl (onDirectiveLine_eq_ok.mpr ⟨_, hok, rfl⟩)
      · exact .inr ⟨place, _, onDirectiveLine_eq_error.mpr ⟨failed, hdeep, rfl⟩⟩
  | loop hround ih =>
      exact rounds_ok_or_tooDeep
        (fun b u turn v hu hv => ⟨((hround b).leads hv).limit, ih b hu hv⟩) hle h
  | takeComments _ =>
      obtain ⟨rfl, rfl⟩ := EStateM.Result.ok.inj h
      exact .inl rfl

/-- The progress under another limit on nesting. -/
def Progress.limited (limit : Nat) (p : Progress) : Progress :=
  { p with state := p.state.limited limit }

/-- Items that are read are read under a higher limit too. -/
theorem Progress.Reads.limited {r : Rules} {p q : Progress} {limit : Nat} (hr : r.Composed)
    (hle : p.state.limit ≤ limit) (h : Reads r p q) :
    Reads r (p.limited limit) (q.limited limit) := by
  induction h with
  | refl p => exact .refl _
  | @item p q found next hgoes hitem _ ih =>
      have hsame : next.limit = p.flush.state.limit := ((Composed.item hr).leads hitem).limit
      have hfound := (Composed.item hr).limited (s := p.flush.state) hle hitem
      exact .item hgoes hfound (ih (hsame ▸ hle))

/-! ## With recovery and without -/

/-- Reading on with recovery comes to an end, and keeps what was read and noted before. -/
theorem readOn_keeps {r : Rules} (hr : r.Composed) (p : Progress) :
    ∃ q, readOn r true p = .complete q ∧ p.nodes <:+ q.nodes ∧ p.failures <:+ q.failures ∧
      p.state.warnings <+: q.state.warnings := by
  induction hn : p.state.rest.length using Nat.strong_induction_on generalizing p with
  | _ n ih =>
      subst hn
      have hnodes : p.nodes <:+ p.flush.nodes := List.suffix_append _ _
      by_cases hend : p.flush.state.rest = []
      · exact ⟨p.flush, readOn_end hend, hnodes, List.suffix_refl _, List.prefix_refl _⟩
      · cases hitem : item r p.flush.state with
        | ok found next =>
            have hleads := (Composed.item hr).leads hitem
            obtain ⟨q, hq, hqnodes, hfailures, hwarnings⟩ := ih _ (length_item_lt hr hend hitem)
              ⟨found.reverse ++ p.flush.nodes, p.failures, next⟩ rfl
            refine ⟨q, (readOn_ok hr hend hitem).trans hq, ?_, hfailures, ?_⟩
            · exact (hnodes.trans (List.suffix_append _ _)).trans hqnodes
            · exact hleads.warnings.trans hwarnings
        | error failure failed =>
            have hleads := (Composed.item hr).leads_error hitem
            obtain ⟨q, hq, hqnodes, hfailures, hwarnings⟩ := ih _
              (length_resume_flush_lt failed hend) ⟨errorNode failure :: p.flush.nodes,
                failure :: p.failures, failed.resume p.flush.state.rest⟩ rfl
            refine ⟨q, (readOn_recovered hr hend hitem).trans hq, ?_, ?_, ?_⟩
            · exact (hnodes.trans (List.suffix_cons _ _)).trans hqnodes
            · exact (List.suffix_cons _ _).trans hfailures
            · exact hleads.warnings.trans hwarnings

/-- The first error among the nodes is that of the first failure. -/
theorem find_error {p : Progress} (hp : p.InStep Anywhere) (hclean : p.failures = [])
    (failure : Failure) (later : List Node) :
    (p.nodes.reverse ++ errorNode failure :: later).find? (fun n => n.kind = .error) =
      some (errorNode failure) := by
  have hnone : errorTexts p.nodes = [] := by rw [hp.errors, hclean, List.map_nil]
  rw [errorTexts, List.map_eq_nil_iff, List.filter_eq_nil_iff] at hnone
  rw [List.find?_append, List.find?_eq_none.mpr fun n hn => hnone n (List.mem_reverse.mp hn)]
  rfl

/-- The progress at the start of a file. -/
def Progress.start (tokens : List Token) (limit : Nat) : Progress :=
  ⟨[], [], .ofTokens tokens limit⟩

theorem Progress.start_inStep (tokens : List Token) (limit : Nat) :
    (Progress.start tokens limit).InStep Anywhere :=
  ⟨State.ofTokens_anywhere tokens limit, .nil, rfl⟩

end Grammar

open Grammar

/-- A file is read from its start, with as many levels as its tokens can need. -/
theorem parse_eq_readOn_start (tokens : List Token) (options : ParseSettings) :
    parse tokens options =
      (readOn (.forTokens (State.ofTokens tokens 0).rest) options.recover
        (.start tokens options.maxNesting)).parsed :=
  parse_eq_parsed tokens options

namespace Grammar

section

theorem Rules.forTokens_composed (tokens : List Token) : (Rules.forTokens tokens).Composed :=
  Rules.level_composed _

variable {tokens : List Token} {options : ParseSettings} {p : Progress}

/-- Where items are read up to the end, the parse is what they come to. -/
theorem Progress.Reads.parse_eq
    (h : Reads (.forTokens (State.ofTokens tokens 0).rest) (.start tokens options.maxNesting) p)
    (hend : p.flush.state.rest = []) : parse tokens options = (Ending.complete p.flush).parsed := by
  rw [parse_eq_readOn_start, h.readOn_eq (Rules.forTokens_composed _), readOn_end hend]

/-- Where an item fails, the parse is not clean. -/
theorem Progress.Reads.isClean_eq_false {failure : Failure} {failed : State}
    (h : Reads (.forTokens (State.ofTokens tokens 0).rest) (.start tokens options.maxNesting) p)
    (hgoes : p.flush.state.rest ≠ [])
    (hitem : Grammar.item (.forTokens (State.ofTokens tokens 0).rest) p.flush.state =
      .error failure failed) : (parse tokens options).isClean = false := by
  have hr := Rules.forTokens_composed (State.ofTokens tokens 0).rest
  rw [parse_eq_readOn_start, h.readOn_eq hr]
  cases options.recover with
  | true =>
      obtain ⟨q, hq, -, ⟨later, hfailures⟩, -⟩ := readOn_keeps hr
        ⟨errorNode failure :: p.flush.nodes, failure :: p.failures,
          failed.resume p.flush.state.rest⟩
      rw [readOn_recovered hr hgoes hitem, hq]
      simp [Ending.parsed, Parsed.isClean, ← hfailures]
  | false =>
      rw [readOn_stopped hr hgoes hitem]
      rfl

/-- In a clean parse all items are read. -/
theorem exists_reads_of_isClean (h : (parse tokens options).isClean = true) :
    ∃ p, Progress.Reads (.forTokens (State.ofTokens tokens 0).rest)
        (.start tokens options.maxNesting) p ∧
      p.flush.state.rest = [] ∧ parse tokens options = (Ending.complete p.flush).parsed := by
  have hr := Rules.forTokens_composed (State.ofTokens tokens 0).rest
  obtain ⟨p, hreads, hend | ⟨hgoes, failure, failed, hitem⟩⟩ :=
    Progress.Reads.exists_reads hr (.start tokens options.maxNesting)
  · exact ⟨p, hreads, hend, hreads.parse_eq hend⟩
  · rw [hreads.isClean_eq_false hgoes hitem] at h
    contradiction

end

end Grammar

/-- Options matter only where something fails. A parse that is clean under one limit on nesting is
the same under any higher one, with recovery or without. A parse that is not clean has, without
recovery, the first of its errors as its root, the first of its diagnostics as its only one, and
the notes that were made up to there. -/
theorem parse_options (tokens : List Token) (limit : Nat) :
    (∀ recover, (parse tokens ⟨limit, recover⟩).isClean = true →
        ∀ higher ≥ limit, ∀ recover',
          parse tokens ⟨higher, recover'⟩ = parse tokens ⟨limit, recover⟩) ∧
      ((parse tokens ⟨limit, true⟩).isClean = false →
        let whole := parse tokens ⟨limit, true⟩
        let stopped := parse tokens ⟨limit, false⟩
        stopped.root.kind = .error ∧
          whole.root.children.find? (fun n => n.kind = .error) = some stopped.root ∧
          (∃ first later, whole.diagnostics = first :: later ∧ stopped.diagnostics = [first]) ∧
          stopped.warnings <+: whole.warnings) := by
  have hr := Rules.level_composed (2 * (State.ofTokens tokens 0).rest.length + 2)
  obtain ⟨p, hreads, hp⟩ := Progress.Reads.exists_reads hr (.start tokens limit)
  have hclean : p.failures = [] := hreads.failures_eq
  have hstep := hreads.inStep (Progress.start_inStep tokens limit)
  simp only [parse_eq_readOn_start]
  rcases hp with hend | ⟨hgoes, failure, failed, hitem⟩
  · -- Nothing fails: the limit is never met, and there is nothing to recover from.
    have hparse : ∀ higher ≥ limit, ∀ recover,
        (readOn (.forTokens (State.ofTokens tokens 0).rest) recover
          (.start tokens higher)).parsed = (Ending.complete p.flush).parsed := by
      intro higher hle recover
      have hhigher : Progress.Reads _ ((Progress.start tokens limit).limited higher)
          (p.limited higher) := hreads.limited hr hle
      have hflush : (p.limited higher).flush.state.rest = [] := hend
      have hread := hhigher.readOn_eq hr recover
      rw [readOn_end hflush] at hread
      exact (congrArg Ending.parsed hread).trans rfl
    refine ⟨fun recover _ higher hle recover' => ?_, fun hdirty => ?_⟩
    · rw [hparse higher hle, hparse limit (Nat.le_refl _)]
    · rw [hparse limit (Nat.le_refl _)] at hdirty
      have hflush : p.flush.failures = [] := hclean
      simp [Ending.parsed, Parsed.isClean, hflush] at hdirty
  · obtain ⟨q, hq, ⟨later, hnodes⟩, ⟨failures, hfailures⟩, hwarnings⟩ := readOn_keeps hr
      ⟨errorNode failure :: p.flush.nodes, failure :: p.failures,
        failed.resume p.flush.state.rest⟩
    have hwhole : readOn (.forTokens (State.ofTokens tokens 0).rest) true (.start tokens limit) =
        .complete q :=
      (hreads.readOn_eq hr true).trans ((readOn_recovered hr hgoes hitem).trans hq)
    have hstopped : readOn (.forTokens (State.ofTokens tokens 0).rest) false
        (.start tokens limit) = .stopped failure failed :=
      (hreads.readOn_eq hr false).trans (readOn_stopped hr hgoes hitem)
    refine ⟨fun recover hnot => ?_, fun _ => ?_⟩
    · cases recover with
      | true =>
          rw [hwhole] at hnot
          simp [Ending.parsed, Parsed.isClean, ← hfailures] at hnot
      | false =>
          rw [hstopped] at hnot
          simp [Ending.parsed, Parsed.isClean] at hnot
    · rw [hwhole, hstopped]
      refine ⟨rfl, ?_, ?_, hwarnings.map _⟩
      · have hchildren : q.nodes.reverse =
            p.flush.nodes.reverse ++ errorNode failure :: later.reverse := by
          rw [← hnodes]
          simp
        exact (congrArg _ hchildren).trans (find_error hstep.flush hclean failure later.reverse)
      · refine ⟨failure.message, failures.reverse.map Failure.message, ?_, rfl⟩
        simp [Ending.parsed, ← hfailures, hclean]

/-- A value takes a level of its own: under no limit the declaration fails, and the first error is
the root. -/
theorem parse_options_value :
    let tokens : List Token := [⟨.keyword .intKw, "int", ⟨1, 1⟩⟩, ⟨.identifier, "a", ⟨1, 5⟩⟩,
      ⟨.operator .assign, "=", ⟨1, 7⟩⟩, ⟨.identifier, "b", ⟨1, 9⟩⟩,
      ⟨.delimiter .semicolon, ";", ⟨1, 10⟩⟩, .endOfInput ⟨1, 11⟩]
    parse tokens ⟨48, false⟩ = parse tokens ⟨1, true⟩ ∧
      (parse tokens ⟨0, true⟩).root.children.find? (fun n => n.kind = .error) =
        some (parse tokens ⟨0, false⟩).root := by
  intro tokens
  have hclean : (parse tokens ⟨1, true⟩).isClean = true := by decide +kernel
  have hdirty : (parse tokens ⟨0, true⟩).isClean = false := by decide +kernel
  exact ⟨(parse_options tokens 1).1 true hclean 48 (by decide) false,
    ((parse_options tokens 0).2 hdirty).2.1⟩

end CSurvey
