import CSurvey.Proofs.Grammar.Joining

/-! # Recovery has no memory

Behind an item that cannot be read, a file is read as if it began there: nothing that the failed
attempt left behind is seen again but its error and the comments of the tokens passed over. -/

namespace CSurvey.Grammar

/-! ## The first failure -/

/-- Items are read one after another, and none of them fails. -/
inductive Progress.Reads (r : Rules) : Progress → Progress → Prop where
  | refl (p : Progress) : Reads r p p
  | item {p q : Progress} {found : List Node} {next : State} :
      p.flush.state.rest ≠ [] → Grammar.item r p.flush.state = .ok found next →
      Reads r ⟨found.reverse ++ p.flush.nodes, p.failures, next⟩ q → Reads r p q

/-- The items of a file are read without a failure up to `p`, and the next one fails. -/
structure FailsFirst (tokens : List Token) (options : ParseSettings) (p : Progress)
    (failure : Failure) (failed : State) : Prop where
  reads : Progress.Reads (.forTokens (State.ofTokens tokens options.maxNesting).rest)
    ⟨[], [], State.ofTokens tokens options.maxNesting⟩ p
  goesOn : p.flush.state.rest ≠ []
  fails : item (.forTokens (State.ofTokens tokens options.maxNesting).rest) p.flush.state =
    .error failure failed

theorem Progress.leads_flush (p : Progress) : p.state.Leads p.flush.state :=
  .takeComments p.state

namespace Progress.Reads

variable {r : Rules} {p q : Progress} {levels : Nat}

theorem readOn_eq (hr : r.Composed) (h : Reads r p q) (recover : Bool) :
    readOn r recover p = readOn r recover q := by
  induction h with
  | refl p => rfl
  | item hgoes hitem _ ih => rw [readOn_ok hr hgoes hitem, ih]

theorem failures_eq (h : Reads r p q) : q.failures = p.failures := by
  induction h with
  | refl p => rfl
  | item _ _ _ ih => exact ih

theorem leads (hr : r.Composed) (h : Reads r p q) : p.state.Leads q.state := by
  induction h with
  | refl p => exact .refl _
  | @item p q found next _ hitem _ ih =>
      exact (p.leads_flush.trans ((Composed.item hr).leads hitem)).trans ih

theorem inStep {known : Position → Prop} (hp : p.InStep known)
    (h : Reads (.level levels) p q) : q.InStep known := by
  induction h with
  | refl p => exact hp
  | item _ hitem _ ih => exact ih (hp.flush.read hitem)

/-- Items are read one after another up to the end, or up to the first that fails. -/
theorem exists_reads (hr : r.Composed) (p : Progress) :
    ∃ q, Reads r p q ∧ (q.flush.state.rest = [] ∨ q.flush.state.rest ≠ [] ∧
      ∃ failure failed, Grammar.item r q.flush.state = .error failure failed) := by
  induction hn : p.state.rest.length using Nat.strong_induction_on generalizing p with
  | _ n ih =>
      subst hn
      by_cases hend : p.flush.state.rest = []
      · exact ⟨p, .refl p, .inl hend⟩
      · cases hitem : Grammar.item r p.flush.state with
        | ok found next =>
            obtain ⟨q, hreads, hq⟩ := ih _ (length_item_lt hr hend hitem)
              ⟨found.reverse ++ p.flush.nodes, p.failures, next⟩ rfl
            exact ⟨q, .item hend hitem hreads, hq⟩
        | error failure failed => exact ⟨p, .refl p, .inr ⟨hend, failure, failed, hitem⟩⟩

/-- A reading with failures has a first one. -/
theorem exists_fails (hr : r.Composed) (h : readOn r true p = .complete q)
    (hp : p.failures = []) (hq : q.failures ≠ []) :
    ∃ p' failure failed, Reads r p p' ∧ p'.flush.state.rest ≠ [] ∧
      Grammar.item r p'.flush.state = .error failure failed := by
  obtain ⟨p', hreads, hend | ⟨hgoes, failure, failed, hitem⟩⟩ := exists_reads hr p
  · rw [hreads.readOn_eq hr, readOn_end hend] at h
    obtain rfl := Ending.complete.inj h
    exact absurd (hreads.failures_eq.trans hp) hq
  · exact ⟨p', failure, failed, hreads, hgoes, hitem⟩

end Progress.Reads

/-! ## Behind the first failure -/

theorem eq_of_movedTo_id {n n' : Node} (h : MovedTo id n n') : n = n' := by
  cases h with
  | part _ => exact (n.moved_eq_self fun _ _ => rfl).symm
  | error e => rfl

/-- What is read does not depend on what has been read and noted before. -/
theorem readOn_base {below : List Token} {stop : Position} {levels limit : Nat} {q : Progress}
    (hq : readOn (.level levels) true (.ofFile below stop limit) = .complete q)
    (base : List Node) (failures : List Failure) (warnings : List SkippedMember) :
    ∃ r, readOn (.level levels) true
        ⟨base, failures, ⟨below, stop, limit, 0, false, [], warnings⟩⟩ = .complete r ∧
      r.nodes = q.nodes ++ base := by
  obtain ⟨r, ns, hr, hns, hall⟩ := readOn_elsewhere id hq base failures warnings
  have hnodes : List.Forall₂ Eq q.nodes ns := hall.imp fun _ _ => eq_of_movedTo_id
  rw [List.forall₂_eq_eq_eq] at hnodes
  have htokens : Moves.move id below = below := List.map_id below
  rw [htokens] at hr
  exact ⟨r, hr, by rw [hns, hnodes]⟩

/-- Of a failed attempt nothing is left but what it has noted. -/
theorem State.resume_eq (failed : State) (start : List Token) :
    ∃ passed, start = passed ++ (failed.resume start).rest ∧
      failed.resume start = ⟨(failed.resume start).rest, failed.stop, failed.limit, 0, false,
        commentNodes passed, failed.warnings⟩ := by
  obtain ⟨passed, hpassed, hcomments⟩ := skips_behindItem
    ((start.head?.map fun t => t.kind.isDirective).getD false) true 0 start
  refine ⟨passed, hpassed, ?_⟩
  rw [← hcomments]
  rfl

/-- Behind the first failed item the reading adds its error, the comments passed over, and what
stands behind them as a file of its own. -/
theorem Progress.Reads.resumed {levels limit : Nat} {inner : List Token} {stop : Position}
    {p : Progress} {failure : Failure} {failed : State}
    (hreads : Reads (.level levels) (.ofFile inner stop limit) p) (hgoes : p.flush.state.rest ≠ [])
    (hitem : Grammar.item (.level levels) p.flush.state = .error failure failed) :
    ∃ above passed below, inner = above ++ passed ++ below ∧ passed ≠ [] ∧
      p.flush.state.rest = passed ++ below ∧ (failed.resume p.flush.state.rest).rest = below ∧
      ∀ q, readOn (.level levels) true (.ofFile below stop limit) = .complete q →
        ∃ whole, readOn (.level levels) true (.ofFile inner stop limit) = .complete whole ∧
          whole.nodes.reverse = p.flush.nodes.reverse ++
            errorNode failure :: commentNodes passed ++ q.nodes.reverse := by
  have hr := Rules.level_composed levels
  have hbefore := (hreads.leads hr).trans p.leads_flush
  have hfailed := hbefore.trans ((Composed.item hr).leads_error hitem)
  have hstop : failed.stop = stop := hfailed.stop
  have hlimit : failed.limit = limit := hfailed.limit
  have hshort := failed.length_resume_lt hgoes
  obtain ⟨above, habove⟩ := hbefore.rest
  obtain ⟨passed, hpassed, hstate⟩ := failed.resume_eq p.flush.state.rest
  rw [hstop, hlimit] at hstate
  generalize hbelow : (failed.resume p.flush.state.rest).rest = below at hpassed hstate hshort
  refine ⟨above, passed, below, ?_, ?_, hpassed, rfl, fun q hq => ?_⟩
  · rw [List.append_assoc, ← hpassed]
    exact habove.symm
  · rintro rfl
    rw [hpassed] at hshort
    exact Nat.lt_irrefl _ hshort
  · obtain ⟨whole, hwhole, hnodes⟩ := readOn_base hq
      ((commentNodes passed).reverse ++ errorNode failure :: p.flush.nodes)
      (failure :: p.failures) failed.warnings
    have hflush := Progress.flush_comments (errorNode failure :: p.flush.nodes)
      (commentNodes passed) (failure :: p.failures) (failed.resume p.flush.state.rest)
    rw [hstate] at hflush
    refine ⟨whole, ?_, by simp [hnodes]⟩
    rw [hreads.readOn_eq hr, readOn_recovered hr hgoes hitem, hstate, ← hwhole]
    exact readOn_congr hr hflush

/-! ## Diagnostics -/

theorem errorTexts_commentNodes (tokens : List Token) : errorTexts (commentNodes tokens) = [] := by
  have hnone : ∀ n ∈ commentNodes tokens, ¬decide (n.kind = .error) = true := by
    intro n hn
    obtain ⟨t, -, rfl⟩ := List.mem_map.mp hn
    simp [asComment, Node.texted]
  rw [errorTexts, List.filter_eq_nil_iff.mpr hnone]
  rfl

/-- The diagnostics are the texts of the errors. -/
theorem errorTexts_of_inStep {q : Progress} (h : q.InStep Anywhere) :
    errorTexts q.nodes.reverse = (Ending.complete q).parsed.diagnostics.map some := by
  rw [errorTexts_reverse, h.errors]
  simp [Ending.parsed]

theorem diagnostics_resumed {p q whole : Progress} {failure : Failure} {passed : List Token}
    (hp : p.InStep Anywhere) (hclean : p.failures = []) (hq : q.InStep Anywhere)
    (hwhole : whole.InStep Anywhere)
    (hnodes : whole.nodes.reverse = p.flush.nodes.reverse ++
      errorNode failure :: commentNodes passed ++ q.nodes.reverse) :
    (Ending.complete whole).parsed.diagnostics =
      failure.message :: (Ending.complete q).parsed.diagnostics := by
  have hbefore : errorTexts p.flush.nodes.reverse = [] := by
    have hfailures : p.flush.failures = [] := hclean
    rw [errorTexts_reverse, hp.flush.errors, hfailures]
    rfl
  have hsome : Function.Injective (List.map (some : String → Option String)) :=
    List.map_injective_iff.mpr fun _ _ h => Option.some.inj h
  apply hsome
  calc (Ending.complete whole).parsed.diagnostics.map some
      = errorTexts whole.nodes.reverse := (errorTexts_of_inStep hwhole).symm
    _ = some failure.message :: errorTexts q.nodes.reverse := by
        rw [hnodes, errorTexts_append, errorTexts_append, hbefore, errorTexts_errorNode,
          errorTexts_commentNodes]
        rfl
    _ = _ := by
        rw [errorTexts_of_inStep hq]
        rfl

/-! ## Whole files -/

/-- Recovery has no memory. A parse that is not clean has a first item that fails, and the tokens
passed over from its first token on are not none. The nodes are those of the items before it, its
error, the comments passed over and the nodes of the rest of the file parsed on its own; the
diagnostics are that of the error and those of the rest. -/
theorem parse_resumed {tokens : List Token} {options : ParseSettings} (hends : EndsOnce tokens)
    (hrecover : options.recover = true) :
    ((parse tokens options).isClean = false →
        ∃ p failure failed, FailsFirst tokens options p failure failed) ∧
      ∀ p failure failed, FailsFirst tokens options p failure failed →
        ∃ above passed below, tokens = above ++ passed ++ below ∧ passed ≠ [] ∧
          p.flush.state.rest = passed ++ below.dropLast ∧
          (failed.resume p.flush.state.rest).rest = below.dropLast ∧
          (parse tokens options).root.children = p.flush.nodes.reverse ++
            errorNode failure :: commentNodes passed ++ (parse below options).root.children ∧
          (parse tokens options).diagnostics =
            failure.message :: (parse below options).diagnostics := by
  obtain ⟨inner, last, rfl, hlast, hinner⟩ := hends
  have hstart := State.ofTokens_ends options.maxNesting hlast hinner
  let levels := 2 * inner.length + 2
  have hroom : inner.length < levels := by
    simp only [levels]
    omega
  obtain ⟨whole, hwhole, hsteps, hparse⟩ := parse_closed hlast hinner hrecover hroom
  rw [hparse]
  refine ⟨fun hdirty => ?_, fun p failure failed hfails => ?_⟩
  · have hne : whole.failures ≠ [] := by simpa [Ending.parsed, Parsed.isClean] using hdirty
    obtain ⟨p, failure, failed, hreads, hgoes, hitem⟩ :=
      Progress.Reads.exists_fails (Rules.level_composed levels) hwhole rfl hne
    refine ⟨p, failure, failed, ?_, hgoes, ?_⟩
    · rw [hstart]
      exact hreads
    · rw [hstart]
      exact hitem
  · obtain ⟨hreads, hgoes, hitem⟩ := hfails
    rw [hstart] at hreads hitem
    change Progress.Reads (.level levels) (.ofFile inner last.location options.maxNesting) p
      at hreads
    obtain ⟨above, passed, below, rfl, hne, hpassed, hresumed, hnodes⟩ :=
      hreads.resumed hgoes hitem
    have hbelow : ∀ t ∈ below, t.kind ≠ .endOfInput := fun t ht =>
      hinner t (List.mem_append_right _ ht)
    have hshort : below.length < levels := by
      rw [List.length_append] at hroom
      omega
    obtain ⟨q, hq, hqsteps, hrest⟩ := parse_closed hlast hbelow hrecover hshort
    obtain ⟨whole', hwhole', hchildren⟩ := hnodes q hq
    obtain rfl := Ending.complete.inj (hwhole.symm.trans hwhole')
    refine ⟨above, passed, below ++ [last], List.append_assoc _ _ _, hne, ?_, ?_, ?_, ?_⟩
    · rwa [List.dropLast_concat]
    · rwa [List.dropLast_concat]
    · rw [hrest]
      exact hchildren
    · rw [hrest]
      exact diagnostics_resumed (hreads.inStep (Progress.ofFile_inStep ..)) hreads.failures_eq
        hqsteps hsteps hchildren

/-- A declaration without a name between two others. -/
theorem parse_resumed_nameless :
    let tokens : List Token := [⟨.keyword .intKw, "int", ⟨1, 1⟩⟩, ⟨.identifier, "a", ⟨1, 5⟩⟩,
      ⟨.delimiter .semicolon, ";", ⟨1, 6⟩⟩, ⟨.keyword .intKw, "int", ⟨1, 8⟩⟩,
      ⟨.operator .assign, "=", ⟨1, 12⟩⟩, ⟨.blockComment, "no name", ⟨1, 14⟩⟩,
      ⟨.delimiter .semicolon, ";", ⟨1, 26⟩⟩, ⟨.keyword .intKw, "int", ⟨1, 28⟩⟩,
      ⟨.identifier, "b", ⟨1, 32⟩⟩, ⟨.delimiter .semicolon, ";", ⟨1, 33⟩⟩, .endOfInput ⟨1, 34⟩]
    EndsOnce tokens ∧
      (parse tokens {}).root.children.map Node.kind =
        [.variableDeclaration, .error, .comment, .variableDeclaration] ∧
      ∃ p failure failed passed below, FailsFirst tokens {} p failure failed ∧
        (parse tokens {}).root.children = p.flush.nodes.reverse ++
          errorNode failure :: commentNodes passed ++ (parse below {}).root.children := by
  intro tokens
  have hends : EndsOnce tokens := ⟨tokens.dropLast, .endOfInput ⟨1, 34⟩, rfl, rfl, by decide⟩
  have hrecover : ({} : ParseSettings).recover = true := rfl
  obtain ⟨hdirty, hresumed⟩ := parse_resumed hends hrecover
  obtain ⟨p, failure, failed, hfails⟩ := hdirty (by decide +kernel)
  obtain ⟨above, passed, below, -, -, -, -, hchildren, -⟩ := hresumed p failure failed hfails
  exact ⟨hends, by decide +kernel, p, failure, failed, passed, below, hfails, hchildren⟩

end CSurvey.Grammar
