import Mathlib.Data.List.Nodup
import CSurvey.Proofs.Grammar.FailedLine
import CSurvey.Proofs.Grammar.Limits
import CSurvey.Proofs.Grammar.Notes
import CSurvey.Proofs.Grammar.Termination

/-! # Members noted twice

The notes of an attempt that fails are kept, and the reading goes on behind the item, which may be
in front of where the attempt had come to. So a member between these places can be noted twice, and
no other can. -/

namespace CSurvey.Grammar

/-! ## Notes of a reading -/

variable {p p' q : Progress} {r : Rules} {n levels limit : Nat} {notes : List SkippedMember}
  {stop : Position}

/-- A reading does not depend on the notes that were made before. -/
theorem readOn_renoted (hr : r.Composed) (hn : n ≤ p.state.warnings.length)
    (hstate : p'.flush.state = p.flush.state.renoted n notes)
    (hq : readOn r true p = .complete q) :
    ∃ q', readOn r true p' = .complete q' ∧ q'.state = q.state.renoted n notes := by
  induction hlength : p.state.rest.length using Nat.strong_induction_on generalizing p p' with
  | _ length ih =>
      subst hlength
      have hrest : p'.flush.state.rest = p.flush.state.rest := by
        rw [hstate]
        rfl
      by_cases hend : p.flush.state.rest = []
      · rw [readOn_end hend] at hq
        obtain rfl := Ending.complete.inj hq
        exact ⟨p'.flush, readOn_end (hrest.trans hend), hstate⟩
      · have hend' : p'.flush.state.rest ≠ [] := hrest ▸ hend
        have hitem' : item r p'.flush.state = renotedResult n notes (item r p.flush.state) := by
          rw [hstate]
          exact (Composed.item hr).renoted hn
        cases hitem : item r p.flush.state with
        | ok found next =>
            have hleads := (Composed.item hr).leads hitem
            rw [hitem] at hitem'
            rw [readOn_ok hr hend hitem] at hq
            rw [readOn_ok hr hend' hitem']
            exact ih _ (length_item_lt hr hend hitem)
              (p := ⟨found.reverse ++ p.flush.nodes, p.failures, next⟩)
              (Nat.le_trans hn hleads.warnings.length_le) rfl hq rfl
        | error failure failed =>
            have hleads := (Composed.item hr).leads_error hitem
            rw [hitem] at hitem'
            rw [readOn_recovered hr hend hitem] at hq
            rw [readOn_recovered hr hend' hitem', hrest]
            exact ih _ (length_resume_flush_lt failed hend)
              (p := ⟨errorNode failure :: p.flush.nodes, failure :: p.failures,
                failed.resume p.flush.state.rest⟩)
              (Nat.le_trans hn hleads.warnings.length_le) rfl hq rfl

/-- A state between two items of a file. -/
structure State.AtTop (stop : Position) (limit : Nat) (s : State) : Prop where
  rest : ∀ t ∈ s.rest, t.kind ≠ .endOfInput
  stop_eq : s.stop = stop
  limit_eq : s.limit = limit
  depth : s.depth = 0
  onLine : s.onLine = false

/-- The tokens that are left, with the end of input. -/
def State.left (s : State) : List Token :=
  s.rest ++ [.endOfInput s.stop]

theorem State.AtTop.leads {s t : State} (h : s.AtTop stop limit) (hleads : s.Leads t)
    (hdepth : t.depth = s.depth) : t.AtTop stop limit :=
  ⟨fun x hx => h.rest x (hleads.rest.mem hx), hleads.stop.trans h.stop_eq,
    hleads.limit.trans h.limit_eq, hdepth.trans h.depth, hleads.onLine.trans h.onLine⟩

theorem State.AtTop.resume {s failed : State} (h : s.AtTop stop limit) (hfailed : s.Leads failed) :
    (failed.resume s.rest).AtTop stop limit := by
  obtain ⟨passed, hpassed, -⟩ := failed.resume_eq s.rest
  refine ⟨fun x hx => h.rest x ?_, hfailed.stop.trans h.stop_eq, hfailed.limit.trans h.limit_eq,
    rfl, rfl⟩
  rw [hpassed]
  exact List.mem_append_right _ hx

/-- The reading of the rest of a file makes the notes of that rest as a file of its own. -/
theorem messages_readOn {options : ParseSettings} (hp : p.state.AtTop stop options.maxNesting)
    (hrecover : options.recover = true) (hlevels : p.state.rest.length < levels)
    (hq : readOn (.level levels) true p = .complete q) :
    q.state.warnings.map SkippedMember.message =
      p.state.warnings.map SkippedMember.message ++ (parse p.state.left options).warnings := by
  have hlast : (Token.endOfInput p.state.stop).kind = .endOfInput := rfl
  obtain ⟨whole, hwhole, -, hparse⟩ := parse_closed hlast hp.rest hrecover hlevels
  have hstate : p.flush.state = (Progress.ofFile p.state.rest p.state.stop
      options.maxNesting).flush.state.renoted 0 p.state.warnings := by
    obtain ⟨nodes, failures, ⟨rest, stop', limit', depth, onLine, comments, warnings⟩⟩ := p
    obtain ⟨-, -, rfl, rfl, rfl⟩ := hp
    show _ = { (Progress.ofFile rest stop' options.maxNesting).flush.state with
      warnings := warnings ++ [] }
    rw [List.append_nil]
    rfl
  obtain ⟨q', hq', hq'state⟩ :=
    readOn_renoted (Rules.level_composed levels) (Nat.zero_le _) hstate hwhole
  obtain rfl := Ending.complete.inj (hq.symm.trans hq')
  rw [State.left, hparse, hq'state]
  simp [State.renoted, Ending.parsed]

/-! ## Notes on different lines -/

theorem nodup_messages {made : List SkippedMember} (h : (made.map SkippedMember.line).Nodup) :
    (made.map SkippedMember.message).Nodup := by
  refine List.pairwise_map.mpr ((List.pairwise_map.mp h).imp fun hline hmessage => ?_)
  exact hline (SkippedMember.line_eq_of_message hmessage)

theorem nodup_messages_append {made more : List SkippedMember}
    (h : (made.map SkippedMember.line).Nodup) :
    ((made ++ more).map SkippedMember.message).Nodup ↔
      (more.map SkippedMember.message).Nodup ∧
        ∀ m ∈ made, m.message ∉ more.map SkippedMember.message := by
  rw [List.map_append, List.nodup_append, and_iff_right (nodup_messages h)]
  refine and_congr_right fun _ => ⟨fun hapart m hm hmore => ?_, fun hapart a ha b hb hab => ?_⟩
  · exact hapart _ (List.mem_map_of_mem hm) _ hmore rfl
  · obtain ⟨m, hm, rfl⟩ := List.mem_map.mp ha
    exact hapart m hm (hab ▸ hb)

/-! ## Items that fail -/

/-- Items are read up to `p'`, and the next one fails. -/
structure Progress.ComesToFail (r : Rules) (p p' : Progress) (failure : Failure) (failed : State) :
    Prop where
  reaches : Progress.Recovers r p p'
  goesOn : p'.flush.state.rest ≠ []
  fails : item r p'.flush.state = .error failure failed

/-- The attempt that failed has noted a member which begins behind the place where the reading goes
on. -/
structure ReadAgain (p : Progress) (failed : State) (m : SkippedMember) : Prop where
  noted : m ∈ failed.warnings.drop p.state.warnings.length
  again : ∃ passed, (failed.resume p.flush.state.rest).rest = passed ++ failed.rest ∧
    m.line ∈ passed.map Token.line

/-- Such a member is noted again where the reading goes on. -/
def NotesAgain (options : ParseSettings) (p : Progress) (failed : State) : Prop :=
  ∃ m, ReadAgain p failed m ∧
    m.message ∈ (parse (failed.resume p.flush.state.rest).left options).warnings

namespace Progress.ComesToFail

variable {failure : Failure} {failed : State}

theorem not_of_end (hend : p.flush.state.rest = []) : ¬ComesToFail r p p' failure failed := by
  rintro ⟨hreaches, hgoes, -⟩
  cases hreaches with
  | refl => exact hgoes hend
  | item hgoes' => exact hgoes' hend
  | failure hgoes' => exact hgoes' hend

theorem ok_iff {found : List Node} {next : State} (hgoes : p.flush.state.rest ≠ [])
    (hitem : item r p.flush.state = .ok found next) :
    ComesToFail r p p' failure failed ↔
      ComesToFail r ⟨found.reverse ++ p.flush.nodes, p.failures, next⟩ p' failure failed := by
  refine ⟨fun h => ?_, fun h => ⟨.item hgoes hitem h.reaches, h.goesOn, h.fails⟩⟩
  obtain ⟨hreaches, hgoes', hfails⟩ := h
  cases hreaches with
  | refl =>
      rw [hitem] at hfails
      cases hfails
  | item _ hitem' hreaches =>
      rw [hitem] at hitem'
      obtain ⟨rfl, rfl⟩ := EStateM.Result.ok.inj hitem'
      exact ⟨hreaches, hgoes', hfails⟩
  | failure _ hitem' =>
      rw [hitem] at hitem'
      cases hitem'

theorem error_iff {failure' : Failure} {failed' : State} (hgoes : p.flush.state.rest ≠ [])
    (hitem : item r p.flush.state = .error failure failed) :
    ComesToFail r p p' failure' failed' ↔
      (p' = p ∧ failure' = failure ∧ failed' = failed) ∨
        ComesToFail r ⟨errorNode failure :: p.flush.nodes, failure :: p.failures,
          failed.resume p.flush.state.rest⟩ p' failure' failed' := by
  constructor
  · rintro ⟨hreaches, hgoes', hfails⟩
    cases hreaches with
    | refl =>
        rw [hitem] at hfails
        obtain ⟨rfl, rfl⟩ := EStateM.Result.error.inj hfails
        exact .inl ⟨rfl, rfl, rfl⟩
    | item _ hitem' =>
        rw [hitem] at hitem'
        cases hitem'
    | failure _ hitem' hreaches =>
        rw [hitem] at hitem'
        obtain ⟨rfl, rfl⟩ := EStateM.Result.error.inj hitem'
        exact .inr ⟨hreaches, hgoes', hfails⟩
  · rintro (⟨rfl, rfl, rfl⟩ | h)
    · exact ⟨.refl _, hgoes, hitem⟩
    · exact ⟨.failure hgoes hitem h.reaches, h.goesOn, h.fails⟩

end Progress.ComesToFail

/-- A member that was noted on the way to a failure, and that has a token where the reading goes on,
begins between there and the failure. -/
theorem readAgain_of_line {failed : State} {passed : List Token} {made : List SkippedMember}
    {m : SkippedMember} (hlines : (p.flush.state.rest.map Token.line).Nodup)
    (hpassed : p.flush.state.rest = passed ++ failed.rest)
    (hmade : failed.warnings = p.state.warnings ++ made) (hm : m ∈ made)
    (hline : m.line ∈ passed.map Token.line)
    (hbelow : m.line ∈ (failed.resume p.flush.state.rest).rest.map Token.line) :
    ReadAgain p failed m := by
  have hnotLeft : m.line ∉ failed.rest.map Token.line := by
    intro hleft
    rw [hpassed, List.map_append] at hlines
    exact List.disjoint_of_nodup_append hlines hline hleft
  obtain ⟨skipped, hskipped, -⟩ := failed.resume_eq p.flush.state.rest
  have hsuffix : failed.rest <:+ p.flush.state.rest := ⟨passed, hpassed.symm⟩
  have hsuffix' : (failed.resume p.flush.state.rest).rest <:+ p.flush.state.rest :=
    ⟨skipped, hskipped.symm⟩
  refine ⟨?_, ?_⟩
  · rw [hmade, List.drop_left]
    exact hm
  · rcases List.suffix_or_suffix_of_suffix hsuffix hsuffix' with ⟨again, hagain⟩ | hback
    · rw [← hagain, List.map_append] at hbelow
      exact ⟨again, hagain.symm, (List.mem_append.mp hbelow).resolve_right hnotLeft⟩
    · exact absurd ((hback.sublist.map Token.line).mem hbelow) hnotLeft

/-- Of a message that is made again both notes begin on one line. -/
theorem line_mem_of_message {more : List SkippedMember} {lines : List Nat}
    (hmore : ∀ m ∈ more, m.line ∈ lines) {m : SkippedMember}
    (h : m.message ∈ more.map SkippedMember.message) : m.line ∈ lines := by
  obtain ⟨m', hm', hmessage⟩ := List.mem_map.mp h
  rw [← SkippedMember.line_eq_of_message hmessage]
  exact hmore m' hm'

/-- The notes made from one progress to another begin with tokens that were left, and they are
different unless something is noted again. -/
def Progress.NotesApart (options : ParseSettings) (levels : Nat) (p q : Progress) : Prop :=
  ∃ made, q.state.warnings = p.state.warnings ++ made ∧
    (∀ m ∈ made, m.line ∈ p.state.rest.map Token.line) ∧
    ((made.map SkippedMember.message).Nodup ↔ ∀ p' failure failed,
      p.ComesToFail (.level levels) p' failure failed → ¬NotesAgain options p' failed)

namespace Progress.NotesApart

variable {options : ParseSettings} {failure : Failure} {failed next : State} {found : List Node}

/-- What one item notes stands apart from what is noted behind it. -/
theorem read (hlines : (p.state.rest.map Token.line).Nodup) (hgoes : p.flush.state.rest ≠ [])
    (hitem : item (.level levels) p.flush.state = .ok found next)
    (h : NotesApart options levels ⟨found.reverse ++ p.flush.nodes, p.failures, next⟩ q) :
    NotesApart options levels p q := by
  obtain ⟨passed, made, hpassed, hmade, hnoted⟩ := (Reports.item levels).ok hitem
  obtain ⟨more, hmore, hin, hiff⟩ := h
  have hflush := p.leads_flush.rest.sublist.map Token.line
  rw [hpassed, List.map_append] at hflush
  have hlines := hlines.sublist hflush
  have hapart : ∀ m ∈ made, m.message ∉ more.map SkippedMember.message := by
    intro m hm hmem
    exact List.disjoint_of_nodup_append hlines (hnoted.mem (List.mem_map_of_mem hm))
      (line_mem_of_message hin hmem)
  refine ⟨made ++ more, ?_, List.forall_mem_append.mpr ⟨fun m hm => ?_, fun m hm => ?_⟩, ?_⟩
  · rw [hmore, hmade, List.append_assoc]
    rfl
  · exact hflush.mem (List.mem_append_left _ (hnoted.mem (List.mem_map_of_mem hm)))
  · exact hflush.mem (List.mem_append_right _ (hin m hm))
  · rw [nodup_messages_append (hlines.of_append_left.sublist hnoted), and_iff_left hapart, hiff]
    simp only [ComesToFail.ok_iff hgoes hitem]

/-- What an attempt that fails notes is all that can be noted again behind it. -/
theorem recovered (hp : p.state.AtTop stop options.maxNesting) (hrecover : options.recover = true)
    (hlevels : p.state.rest.length < levels) (hlines : (p.state.rest.map Token.line).Nodup)
    (hgoes : p.flush.state.rest ≠ [])
    (hitem : item (.level levels) p.flush.state = .error failure failed)
    (hq : readOn (.level levels) true ⟨errorNode failure :: p.flush.nodes, failure :: p.failures,
      failed.resume p.flush.state.rest⟩ = .complete q)
    (h : NotesApart options levels ⟨errorNode failure :: p.flush.nodes, failure :: p.failures,
      failed.resume p.flush.state.rest⟩ q) : NotesApart options levels p q := by
  obtain ⟨passed, made, hpassed, hmade, hnoted⟩ := (Reports.item levels).error hitem
  change failed.warnings = p.state.warnings ++ made at hmade
  obtain ⟨more, hmore, hin, hiff⟩ := h
  have hflush := p.leads_flush.rest.sublist.map Token.line
  have hlines := hlines.sublist hflush
  have hlines' := hlines
  rw [hpassed, List.map_append] at hlines'
  have hfailed := (Composed.item (Rules.level_composed levels)).leads_error hitem
  have htop := (hp.leads p.leads_flush rfl).resume hfailed
  have hmessages : more.map SkippedMember.message =
      (parse (failed.resume p.flush.state.rest).left options).warnings := by
    have hall := messages_readOn htop hrecover
      ((length_resume_flush_lt failed hgoes).trans hlevels) hq
    rw [hmore, List.map_append] at hall
    exact List.append_cancel_left hall
  have hbegins : ∀ m ∈ made, m.line ∈ passed.map Token.line := fun m hm =>
    hnoted.mem (List.mem_map_of_mem hm)
  refine ⟨made ++ more, ?_, List.forall_mem_append.mpr ⟨fun m hm => ?_, fun m hm => ?_⟩, ?_⟩
  · calc q.state.warnings = failed.warnings ++ more := hmore
      _ = p.state.warnings ++ made ++ more := by rw [hmade]
      _ = p.state.warnings ++ (made ++ more) := List.append_assoc _ _ _
  · apply hflush.mem
    rw [hpassed, List.map_append]
    exact List.mem_append_left _ (hbegins m hm)
  · obtain ⟨skipped, hskipped, -⟩ := failed.resume_eq p.flush.state.rest
    apply hflush.mem
    rw [hskipped, List.map_append]
    exact List.mem_append_right _ (hin m hm)
  · rw [nodup_messages_append (hlines'.of_append_left.sublist hnoted), hiff]
    constructor
    · rintro ⟨hbelow, hapart⟩ p' failure' failed' hfails
      rcases (ComesToFail.error_iff hgoes hitem).mp hfails with ⟨rfl, rfl, rfl⟩ | hfails
      · rintro ⟨m, hm, hagain⟩
        have hnoted := hm.noted
        rw [hmade, List.drop_left] at hnoted
        exact hapart m hnoted (hmessages ▸ hagain)
      · exact hbelow p' failure' failed' hfails
    · refine fun hall => ⟨fun p' failure' failed' hfails => ?_, fun m hm hmem => ?_⟩
      · exact hall p' failure' failed' ((ComesToFail.error_iff hgoes hitem).mpr (.inr hfails))
      · have hfails := (ComesToFail.error_iff hgoes hitem).mpr (.inl ⟨rfl, rfl, rfl⟩)
        have hagain := readAgain_of_line hlines hpassed hmade hm (hbegins m hm)
          (line_mem_of_message hin hmem)
        exact hall p failure failed hfails ⟨m, hagain, hmessages ▸ hmem⟩

end Progress.NotesApart

/-- The notes of a reading are different unless something is noted again. -/
theorem readOn_notesApart {options : ParseSettings} (hp : p.state.AtTop stop options.maxNesting)
    (hrecover : options.recover = true) (hlevels : p.state.rest.length < levels)
    (hlines : (p.state.rest.map Token.line).Nodup)
    (hq : readOn (.level levels) true p = .complete q) : p.NotesApart options levels q := by
  have hr := Rules.level_composed levels
  induction hlength : p.state.rest.length using Nat.strong_induction_on generalizing p with
  | _ length ih =>
      subst hlength
      have htop : p.flush.state.AtTop stop options.maxNesting := hp.leads p.leads_flush rfl
      have hlines' := hlines.sublist (p.leads_flush.rest.sublist.map Token.line)
      by_cases hend : p.flush.state.rest = []
      · rw [readOn_end hend] at hq
        obtain rfl := Ending.complete.inj hq
        refine ⟨[], (List.append_nil _).symm, by simp, iff_of_true List.nodup_nil ?_⟩
        exact fun p' failure failed h => absurd h (Progress.ComesToFail.not_of_end hend)
      · cases hitem : item (.level levels) p.flush.state with
        | ok found next =>
            have hleads := (Composed.item hr).leads hitem
            have hdepth := (Flat.item (Rules.level_flat levels)).ok hitem
            have hshort := length_item_lt hr hend hitem
            rw [readOn_ok hr hend hitem] at hq
            exact .read hlines hend hitem <| ih _ hshort (htop.leads hleads hdepth)
              (hshort.trans hlevels) (hlines'.sublist (hleads.rest.sublist.map _)) hq rfl
        | error failure failed =>
            have hleads := (Composed.item hr).leads_error hitem
            have hshort := length_resume_flush_lt failed hend
            obtain ⟨skipped, hskipped, -⟩ := failed.resume_eq p.flush.state.rest
            have hrest : (failed.resume p.flush.state.rest).rest <:+ p.flush.state.rest :=
              ⟨skipped, hskipped.symm⟩
            rw [readOn_recovered hr hend hitem] at hq
            exact .recovered hp hrecover hlevels hlines hend hitem hq <|
              ih _ hshort (htop.resume hleads) (hshort.trans hlevels)
                (hlines'.sublist (hrest.sublist.map _)) hq rfl

/-! ## Whole files -/

theorem State.ofTokens_atTop (tokens : List Token) (limit : Nat) :
    (State.ofTokens tokens limit).AtTop (State.ofTokens tokens limit).stop limit := by
  refine ⟨fun t ht => ?_, rfl, rfl, rfl, rfl⟩
  rw [State.ofTokens_rest_eq] at ht
  have hkind := List.mem_takeWhile_imp ht
  exact of_decide_eq_true hkind

/-- Where all tokens stand on different lines, the notes of a parse with recovery are different
exactly if no attempt that failed has noted a member that begins behind the place where the reading
went on, and that was noted again there. -/
theorem parse_warnings_nodup_iff {tokens : List Token} {options : ParseSettings}
    (hlines : (tokens.map Token.line).Nodup) (hrecover : options.recover = true) :
    (parse tokens options).warnings.Nodup ↔ ∀ p failure failed,
      Fails tokens options p failure failed → ¬NotesAgain options p failed := by
  let start := State.ofTokens tokens options.maxNesting
  have hrest : start.rest.Sublist tokens := by
    rw [State.ofTokens_rest_eq]
    exact List.takeWhile_sublist _
  have hr := Rules.level_composed (2 * start.rest.length + 2)
  obtain ⟨q, hq, -, -, -⟩ := readOn_keeps hr ⟨[], [], start⟩
  obtain ⟨made, hmade, -, hiff⟩ := readOn_notesApart (State.ofTokens_atTop tokens _) hrecover
    (by simp only [start]; omega) (hlines.sublist (hrest.map _)) hq
  have hwarnings : (parse tokens options).warnings = made.map SkippedMember.message := by
    have hparse : parse tokens options = (Ending.complete q).parsed := by
      rw [parse_eq_parsed, readFile, hrecover]
      exact congrArg Ending.parsed hq
    rw [hparse]
    exact congrArg (List.map SkippedMember.message) hmade
  rw [hwarnings, hiff]
  constructor
  · exact fun h p failure failed hfails =>
      h p failure failed ⟨hfails.reaches, hfails.goesOn, hfails.fails⟩
  · exact fun h p failure failed hfails =>
      h p failure failed ⟨hfails.reaches, hfails.goesOn, hfails.fails⟩

/-- A struct of which a member is noted before its declaration fails, and that is passed over. -/
theorem parse_warnings_passedOver :
    let tokens : List Token := [⟨.keyword .structKw, "struct", ⟨1, 1⟩⟩, ⟨.identifier, "A", ⟨2, 1⟩⟩,
      ⟨.delimiter .leftBrace, "\x7b", ⟨3, 1⟩⟩, ⟨.identifier, "x", ⟨4, 1⟩⟩,
      ⟨.delimiter .rightBrace, "\x7d", ⟨5, 1⟩⟩, ⟨.delimiter .comma, ",", ⟨6, 1⟩⟩,
      .endOfInput ⟨7, 1⟩]
    (tokens.map Token.line).Nodup ∧
      (parse tokens {}).warnings = ["line 4: struct 'A': skipped unsupported member `x`"] ∧
      (parse tokens {}).isClean = false ∧
      ∀ p failure failed, Fails tokens {} p failure failed → ¬NotesAgain {} p failed := by
  intro tokens
  have hlines : (tokens.map Token.line).Nodup := by decide
  have hwarnings : (parse tokens {}).warnings =
      ["line 4: struct 'A': skipped unsupported member `x`"] := by decide +kernel
  have hnodup : (parse tokens {}).warnings.Nodup := by
    rw [hwarnings]
    exact List.nodup_singleton _
  exact ⟨hlines, hwarnings, by decide +kernel, (parse_warnings_nodup_iff hlines rfl).mp hnodup⟩

/-- A struct in the parameters of a function is read twice, since the end of the item is looked for
from its start and found behind the struct before. -/
theorem parse_warnings_twice :
    ¬ ∀ (tokens : List Token) (options : ParseSettings), (tokens.map Token.line).Nodup →
      options.recover = true → (parse tokens options).warnings.Nodup := by
  intro h
  have hnodup := h [⟨.keyword .structKw, "struct", ⟨1, 1⟩⟩, ⟨.identifier, "A", ⟨2, 1⟩⟩,
    ⟨.delimiter .leftBrace, "\x7b", ⟨3, 1⟩⟩, ⟨.delimiter .rightBrace, "\x7d", ⟨4, 1⟩⟩,
    ⟨.identifier, "f", ⟨5, 1⟩⟩, ⟨.delimiter .leftParen, "(", ⟨6, 1⟩⟩,
    ⟨.keyword .structKw, "struct", ⟨7, 1⟩⟩, ⟨.identifier, "B", ⟨8, 1⟩⟩,
    ⟨.delimiter .leftBrace, "\x7b", ⟨9, 1⟩⟩, ⟨.identifier, "x", ⟨10, 1⟩⟩,
    ⟨.delimiter .rightBrace, "\x7d", ⟨11, 1⟩⟩, ⟨.identifier, "b", ⟨12, 1⟩⟩,
    ⟨.delimiter .rightParen, ")", ⟨13, 1⟩⟩, .endOfInput ⟨14, 1⟩] {} (by decide) rfl
  exact absurd hnodup (by decide +kernel)

end CSurvey.Grammar
