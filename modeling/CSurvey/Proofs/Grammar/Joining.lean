import Mathlib.Data.List.Forall2
import CSurvey.Proofs.Grammar.Depth
import CSurvey.Proofs.Grammar.Errors
import CSurvey.Proofs.Grammar.Extent
import CSurvey.Proofs.Grammar.Nesting

/-! # Files in longer files

A file that is read without a failure is read in the same way where more lines follow it, and the
reading goes on with these lines as if they were a file of their own. -/

namespace CSurvey.Grammar

open Moves (move)

/-! ## Reading on -/

/-- The reading of a file from where it has come. -/
def readOn (r : Rules) (recover : Bool) (p : Progress) : Ending :=
  readItems r recover p.state.rest p

section

variable {r : Rules} {recover : Bool} {p p' : Progress} {found : List Node} {next failed : State}
  {failure : Failure}

theorem length_item_lt (hr : r.Composed) (h : p.flush.state.rest ≠ [])
    (hitem : item r p.flush.state = .ok found next) :
    next.rest.length < p.state.rest.length := by
  have hopen : p.flush.state.Open := by
    rw [State.Open, p.settled_flush]
    exact h
  exact Nat.lt_of_lt_of_le (Advances.item hr ⟨p.settled_flush, hopen⟩ hitem trivial)
    p.length_flush_le

theorem length_resume_flush_lt (failed : State) (h : p.flush.state.rest ≠ []) :
    (failed.resume p.flush.state.rest).rest.length < p.state.rest.length :=
  Nat.lt_of_lt_of_le (failed.length_resume_lt h) p.length_flush_le

/-- Tokens enough for the rounds are as good as any others. -/
theorem readItems_enough (hr : r.Composed) {fuel fuel' : List Token}
    (h : p.state.rest.length ≤ fuel.length) (h' : p.state.rest.length ≤ fuel'.length) :
    readItems r recover fuel p = readItems r recover fuel' p := by
  induction fuel generalizing fuel' p with
  | nil =>
      have hnone : p.flush.state.rest = [] := by
        have hle := Nat.le_trans p.length_flush_le h
        exact List.length_eq_zero_iff.mp (Nat.le_zero.mp hle)
      rw [readItems_end hnone, readItems_end hnone]
  | cons x fuel ih =>
      by_cases hend : p.flush.state.rest = []
      · rw [readItems_end hend, readItems_end hend]
      · have hpos := List.length_pos_iff.mpr hend
        obtain ⟨y, fuel', rfl⟩ := List.exists_cons_of_length_pos
          (Nat.lt_of_lt_of_le (Nat.lt_of_lt_of_le hpos p.length_flush_le) h')
        simp only [List.length_cons] at h h'
        cases hitem : item r p.flush.state with
        | ok found next =>
            rw [readItems_ok hend hitem, readItems_ok hend hitem]
            have hlt := length_item_lt hr hend hitem
            exact ih (by dsimp only; omega) (by dsimp only; omega)
        | error failure failed =>
            cases recover with
            | true =>
                rw [readItems_recovered hend hitem, readItems_recovered hend hitem]
                have hlt := length_resume_flush_lt failed hend
                exact ih (by dsimp only; omega) (by dsimp only; omega)
            | false =>
                rw [readItems_stopped hend hitem, readItems_stopped hend hitem]

theorem readOn_end (h : p.flush.state.rest = []) : readOn r recover p = .complete p.flush :=
  readItems_end h

theorem readOn_cons (hr : r.Composed) (h : p.flush.state.rest ≠ []) :
    readOn r recover p =
      match item r p.flush.state with
      | .ok found next => readOn r recover ⟨found.reverse ++ p.flush.nodes, p.failures, next⟩
      | .error failure failed =>
        if recover then
          readOn r recover ⟨errorNode failure :: p.flush.nodes, failure :: p.failures,
            failed.resume p.flush.state.rest⟩
        else .stopped failure failed := by
  have hpos := Nat.lt_of_lt_of_le (List.length_pos_iff.mpr h) p.length_flush_le
  obtain ⟨x, fuel, hfuel⟩ := List.exists_cons_of_length_pos hpos
  rw [readOn, hfuel, readItems_cons h]
  have hlength := congrArg List.length hfuel
  simp only [List.length_cons] at hlength
  cases hitem : item r p.flush.state with
  | ok found next =>
      have hlt := length_item_lt hr h hitem
      exact readItems_enough hr (by dsimp only; omega) (Nat.le_refl _)
  | error failure failed =>
      have hlt := length_resume_flush_lt failed h
      dsimp only
      rw [readItems_enough hr (by dsimp only; omega) (Nat.le_refl _)]
      rfl

theorem readOn_ok (hr : r.Composed) (h : p.flush.state.rest ≠ [])
    (hitem : item r p.flush.state = .ok found next) :
    readOn r recover p =
      readOn r recover ⟨found.reverse ++ p.flush.nodes, p.failures, next⟩ := by
  rw [readOn_cons hr h, hitem]

theorem readOn_recovered (hr : r.Composed) (h : p.flush.state.rest ≠ [])
    (hitem : item r p.flush.state = .error failure failed) :
    readOn r true p = readOn r true ⟨errorNode failure :: p.flush.nodes, failure :: p.failures,
      failed.resume p.flush.state.rest⟩ := by
  rw [readOn_cons hr h, hitem]
  exact if_pos rfl

theorem readOn_stopped (hr : r.Composed) (h : p.flush.state.rest ≠ [])
    (hitem : item r p.flush.state = .error failure failed) :
    readOn r false p = .stopped failure failed := by
  rw [readOn_cons hr h, hitem]
  exact if_neg Bool.false_ne_true

/-- All levels that are more than the tokens are alike. -/
theorem readOn_level_congr {few many : Nat} (hfew : p.state.rest.length < few)
    (hmany : p.state.rest.length < many) :
    readOn (.level few) recover p = readOn (.level many) recover p := by
  have hr := Rules.level_composed few
  induction hn : p.state.rest.length using Nat.strong_induction_on generalizing p with
  | _ n ih =>
      subst hn
      have hle := p.length_flush_le
      by_cases hend : p.flush.state.rest = []
      · rw [readOn_end hend, readOn_end hend]
      · rw [readOn_cons hr hend, readOn_cons (Rules.level_composed many) hend,
          ← item_level_congr (Nat.lt_of_le_of_lt hle hfew) (Nat.lt_of_le_of_lt hle hmany)]
        cases hitem : item (.level few) p.flush.state with
        | ok found next =>
            have hlt := length_item_lt hr hend hitem
            exact ih _ hlt (Nat.lt_trans hlt hfew) (Nat.lt_trans hlt hmany) rfl
        | error failure failed =>
            have hlt := length_resume_flush_lt failed hend
            dsimp only
            rw [ih _ hlt (Nat.lt_trans hlt hfew) (Nat.lt_trans hlt hmany) rfl]

/-- Only what stands behind the next comments matters. -/
theorem readOn_congr (hr : r.Composed) (h : p.flush = p'.flush) :
    readOn r recover p = readOn r recover p' := by
  have hfailures : p.flush.failures = p'.flush.failures := by rw [h]
  change p.failures = p'.failures at hfailures
  by_cases hend : p.flush.state.rest = []
  · rw [readOn_end hend, readOn_end (h ▸ hend), h]
  · rw [readOn_cons hr hend, readOn_cons hr (h ▸ hend), h, hfailures]

end

/-! ## Other places -/

section

variable {m : Seam} {base : List Node} {p p' : Progress} {levels : Nat} {recover : Bool}

/-- What becomes of the nodes of a file at other places. An error says its place in its text. -/
inductive MovedTo (f : Position → Position) : Node → Node → Prop where
  | part {n : Node} (h : n.kind ≠ .error) : MovedTo f n (move f n)
  | error (e : Failure) : MovedTo f (errorNode e) (errorNode ⟨e.cause, f e.location⟩)

theorem errorNode_move {f : Position → Position} (e : Failure) :
    errorNode (move f e) = errorNode ⟨e.cause, f e.location⟩ := by
  have hmessage : (move f e).message = Failure.message ⟨e.cause, f e.location⟩ :=
    congrArg (_ ++ ·) e.cause.message_move
  rw [errorNode, errorNode, hmessage]
  rfl

theorem movedTo_parts {f : Position → Position} {ns : List Node}
    (h : ∀ n ∈ ns, n.kind ≠ .error) : List.Forall₂ (MovedTo f) ns (move f ns) := by
  induction ns with
  | nil => exact .nil
  | cons n ns ih =>
      exact .cons (.part (h n (List.mem_cons_self ..)))
        (ih fun n hn => h n (List.mem_cons_of_mem _ hn))

/-- The same progress at other places, behind other nodes. -/
structure Progress.Over (m : Seam) (base : List Node) (p p' : Progress) : Prop where
  state : m.Over p.state p'.state
  nodes : ∃ ns, p'.nodes = ns ++ base ∧ List.Forall₂ (MovedTo m.place) p.nodes ns

/-- Parts that are added to the nodes. -/
theorem Progress.Over.add {found : List Node} {s t : State} (h : p.Over m base p')
    (hs : m.Over s t) (hfound : ∀ n ∈ found, n.kind ≠ .error) (fs fs' : List Failure) :
    Over m base ⟨found ++ p.nodes, fs, s⟩ ⟨move m.place found ++ p'.nodes, fs', t⟩ := by
  obtain ⟨ns, hns, hall⟩ := h.nodes
  refine ⟨hs, move m.place found ++ ns, ?_, List.rel_append (movedTo_parts hfound) hall⟩
  rw [hns, List.append_assoc]

theorem Progress.Over.flush (h : p.Over m base p') (hp : p.InStep Anywhere)
    (hs : m.Clear State.Bounded p.state) : p.flush.Over m base p'.flush := by
  have hpass := h.state.passTrivia hs
  have hcomments : ∀ n ∈ p.state.passTrivia.comments.reverse, n.kind ≠ .error := by
    intro n hn
    rw [(hp.within.passTrivia.comments n (List.mem_reverse.mp hn)).2]
    decide
  have hover := h.add (s := p.flush.state) (t := p'.flush.state)
    ⟨hpass.rest, hpass.stop, hpass.limit, hpass.depth, hpass.onLine, rfl⟩ hcomments p.failures
    p'.failures
  rw [move_reverse, ← hpass.comments] at hover
  exact hover

/-- How two readings at different places end. -/
inductive Ending.Over (m : Seam) (base : List Node) : Ending → Ending → Prop where
  | complete {p p' : Progress} (h : p.Over m base p') : Over m base (.complete p) (.complete p')
  | stopped (e : Failure) (s s' : State) :
      Over m base (.stopped e s) (.stopped (move m.place e) s')

/-- What is passed over behind a failed item does not depend on places. -/
theorem behindItem_move {f : Position → Position} (isLine first : Bool) (braces : Nat)
    (ts : List Token) :
    behindItem isLine first braces (move f ts) = move f (behindItem isLine first braces ts) := by
  induction ts generalizing first braces with
  | nil => rfl
  | cons t ts ih =>
      rw [move_cons]
      unfold behindItem
      simp only [Token.move_kind, ih]
      split
      · rfl
      · split
        · rfl
        · split
          · rfl
          · split
            · rfl
            · rfl
          · split
            · rfl
            · rfl
          · split
            · rfl
            · rfl
          · rfl

theorem Seam.Over.resume {failed failed' : State} (h : m.Over failed failed')
    (htail : m.tail = []) (start : List Token) :
    m.Over (failed.resume start) (failed'.resume (move m.place start)) := by
  have hline : ((move m.place start).head?.map fun t => t.kind.isDirective) =
      start.head?.map fun t => t.kind.isDirective := by
    cases start with
    | nil => rfl
    | cons t ts => rfl
  unfold State.resume
  rw [hline]
  dsimp only
  rw [behindItem_move]
  exact ⟨by rw [htail, List.append_nil]; rfl, h.stop, h.limit, rfl, rfl, rfl⟩

theorem Progress.kind_ne_error {found : List Node} {next : State} (hp : p.InStep Anywhere)
    (hitem : item (.level levels) p.state = .ok found next) : ∀ n ∈ found, n.kind ≠ .error := by
  intro n hn herror
  have hpart := ((Yields.item levels hp.within hitem).2 n hn).2
  rw [herror] at hpart
  contradiction

/-- A file that is read at other places comes to the same nodes at these. -/
theorem readOn_over (htail : m.tail = []) (hp : p.InStep Anywhere) (h : p.Over m base p') :
    (readOn (.level levels) recover p).Over m base (readOn (.level levels) recover p') := by
  have hr := Rules.level_composed levels
  have hitems := Repeats.item (Rules.level_repeats m levels)
  induction hn : p.state.rest.length using Nat.strong_induction_on generalizing p p' with
  | _ n ih =>
      subst hn
      have hflush := h.flush hp (.inl htail)
      have hrest : p'.flush.state.rest = move m.place p.flush.state.rest := by
        rw [hflush.state.rest, htail, List.append_nil]
      by_cases hend : p.flush.state.rest = []
      · have hend' : p'.flush.state.rest = [] := by rw [hrest, hend, move_nil]
        rw [readOn_end hend, readOn_end hend']
        exact .complete hflush
      · have hend' : p'.flush.state.rest ≠ [] := by
          rw [hrest]
          exact fun hnil => hend (List.map_eq_nil_iff.mp hnil)
        have hopen : p.flush.state.Open := by
          rw [State.Open, p.settled_flush]
          exact hend
        cases hitem : item (.level levels) p.flush.state with
        | ok found next =>
            obtain ⟨next', hitem', hnext⟩ := hitems.ok hopen hflush.state hitem (.inl htail)
            rw [readOn_ok hr hend hitem, readOn_ok hr hend' hitem', ← move_reverse]
            have hfound : ∀ n ∈ found.reverse, n.kind ≠ .error := fun n hn =>
              Progress.kind_ne_error hp.flush hitem n (List.mem_reverse.mp hn)
            exact ih _ (length_item_lt hr hend hitem) (hp.flush.read hitem)
              (hflush.add hnext hfound _ _) rfl
        | error failure failed =>
            obtain ⟨failed', hitem', hfailed⟩ := hitems.error htail hopen hflush.state hitem
            cases recover with
            | true =>
                rw [readOn_recovered hr hend hitem, readOn_recovered hr hend' hitem']
                refine ih _ (length_resume_flush_lt failed hend)
                  (hp.flush.recovered hopen hitem) ⟨?_, ?_⟩ rfl
                · show m.Over (failed.resume _) (failed'.resume _)
                  rw [hrest]
                  exact hfailed.resume htail _
                · obtain ⟨ns, hns, hall⟩ := hflush.nodes
                  refine ⟨errorNode ⟨failure.cause, m.place failure.location⟩ :: ns, ?_,
                    .cons (.error failure) hall⟩
                  rw [hns, errorNode_move]
                  rfl
            | false =>
                rw [readOn_stopped hr hend hitem, readOn_stopped hr hend' hitem']
                exact .stopped failure failed failed'

end

/-! ## More lines -/

/-- Trivia that is known to be stepped over. -/
theorem State.passTrivia_of_passed {s : State} {passed lines : List Token}
    (hrest : s.rest = passed ++ lines) (h : ∀ t ∈ passed, s.isPassed t = true) :
    s.passTrivia = State.passTrivia
      { s with rest := lines, comments := s.comments ++ commentNodes passed } := by
  have hup : s.upcoming = lines.dropWhile s.isPassed := by
    rw [State.upcoming, hrest, List.dropWhile_append_of_pos h]
  have htaken : s.rest.takeWhile s.isPassed = passed ++ lines.takeWhile s.isPassed := by
    rw [hrest, List.takeWhile_append_of_pos h]
  have hcomments : s.comments ++ commentNodes (s.rest.takeWhile s.isPassed) =
      s.comments ++ commentNodes passed ++ commentNodes (lines.takeWhile s.isPassed) := by
    rw [htaken, commentNodes_append, List.append_assoc]
  show ({ s with rest := s.upcoming, comments := s.comments ++ commentNodes _ } : State) = _
  rw [hup, hcomments]
  rfl

/-- Comments that are set aside are the next nodes of a file. -/
theorem Progress.flush_comments (nodes comments : List Node) (failures : List Failure) (s : State) :
    Progress.flush ⟨nodes, failures, { s with comments }⟩ =
      Progress.flush ⟨comments.reverse ++ nodes, failures, { s with comments := [] }⟩ := by
  show Progress.mk ((comments ++ commentNodes _).reverse ++ nodes) _ _ =
    Progress.mk (([] ++ commentNodes _).reverse ++ (comments.reverse ++ nodes)) _ _
  rw [List.reverse_append, List.append_assoc]
  rfl

section

variable {m : Seam} {p p' q : Progress} {levels : Nat} {newline : Token} {lines : List Token}

/-- At the end of a file the longer file goes on with its own lines. -/
theorem flush_through (hm : m.tail = newline :: lines) (hover : m.Over p.state p'.state)
    (hnodes : p'.nodes = move m.place p.nodes) (hline : p.state.onLine = false)
    (hend : p.flush.state.rest = []) :
    p'.flush = Progress.flush ⟨move m.place p.flush.nodes, p'.failures,
      ⟨lines, p'.state.stop, p'.state.limit, p'.state.depth, p'.state.onLine, [],
        p'.state.warnings⟩⟩ := by
  have hpassed : ∀ t ∈ p.state.rest, p.state.isPassed t = true :=
    List.dropWhile_eq_nil_iff.mp hend
  have hnewline : newline.kind = .newline := m.newline newline (by simp [hm])
  have hpassed' : ∀ t ∈ move m.place p.state.rest ++ [newline], p'.state.isPassed t = true := by
    intro t ht
    rcases List.mem_append.mp ht with ht | ht
    · obtain ⟨u, hu, rfl⟩ := List.mem_map.mp ht
      rw [hover.isPassed]
      exact hpassed u hu
    · obtain rfl := List.mem_singleton.mp ht
      simp [State.isPassed, hnewline, hover.onLine, hline]
  have hrest : p'.state.rest = move m.place p.state.rest ++ [newline] ++ lines := by
    rw [hover.rest, hm, List.append_assoc]
    rfl
  have hcomments : commentNodes (move m.place p.state.rest ++ [newline]) =
      move m.place (commentNodes p.state.rest) := by
    rw [commentNodes_append, commentNodes_move]
    simp [commentNodes, hnewline, Token.Kind.isComment]
  have hall : p.state.rest.takeWhile p.state.isPassed = p.state.rest :=
    List.takeWhile_eq_self_iff.mpr hpassed
  have hflush : p.flush.nodes =
      (p.state.comments ++ commentNodes p.state.rest).reverse ++ p.nodes := by
    show (p.state.comments ++ commentNodes (p.state.rest.takeWhile p.state.isPassed)).reverse ++ _ =
      _
    rw [hall]
  have hpass := State.passTrivia_of_passed hrest hpassed'
  calc p'.flush
      = Progress.flush ⟨p'.nodes, p'.failures, { p'.state with
          rest := lines
          comments := p'.state.comments ++
            commentNodes (move m.place p.state.rest ++ [newline]) }⟩ := by
        unfold Progress.flush
        rw [hpass]
    _ = _ := by
        rw [hflush, move_append, move_reverse, ← hnodes, hcomments, hover.comments, ← move_append]
        exact Progress.flush_comments _ _ _ { p'.state with rest := lines }

/-- Behind a file that is read without a failure, the reading goes on with the lines that follow
as if they were a file of their own. -/
theorem readOn_through (hm : m.tail = newline :: lines) (hover : m.Over p.state p'.state)
    (hnodes : p'.nodes = move m.place p.nodes) (hdepth : p.state.depth = 0)
    (hline : p.state.onLine = false) (hread : readOn (.level levels) true p = .complete q)
    (hclean : q.failures = []) :
    ∃ warnings, readOn (.level levels) true p' = readOn (.level levels) true
      ⟨move m.place q.nodes, p'.failures,
        ⟨lines, p'.state.stop, p.state.limit, 0, false, [], warnings⟩⟩ := by
  have hr := Rules.level_composed levels
  have hitems := Repeats.item (Rules.level_repeats m levels)
  induction hn : p.state.rest.length using Nat.strong_induction_on generalizing p p' with
  | _ n ih =>
      subst hn
      by_cases hend : p.flush.state.rest = []
      · rw [readOn_end hend] at hread
        obtain rfl := Ending.complete.inj hread
        refine ⟨p'.state.warnings, readOn_congr hr ?_⟩
        rw [flush_through hm hover hnodes hline hend, hover.limit, hover.depth, hdepth,
          hover.onLine, hline]
      · have hopen : p.state.Open := hend
        have hpass := hover.passTrivia (.inr (.inl hopen))
        have hflush : m.Over p.flush.state p'.flush.state :=
          ⟨hpass.rest, hpass.stop, hpass.limit, hpass.depth, hpass.onLine, rfl⟩
        have hend' : p'.flush.state.rest ≠ [] := by
          rw [hflush.rest]
          exact fun hnil => hend (List.map_eq_nil_iff.mp (List.append_eq_nil_iff.mp hnil).1)
        have hopen' : p.flush.state.Open := by
          rw [State.Open, p.settled_flush]
          exact hend
        cases hitem : item (.level levels) p.flush.state with
        | ok found next =>
            obtain ⟨next', hitem', hnext⟩ := hitems.ok hopen' hflush hitem (.inr trivial)
            have hleads := hitems.leads hopen' hitem
            have hleads' := (Composed.item hr).leads hitem'
            have hstop : next'.stop = p'.state.stop := hleads'.stop
            have hlimit : next.limit = p.state.limit := hleads.limit
            rw [readOn_ok hr hend hitem] at hread
            rw [readOn_ok hr hend' hitem', ← hstop, ← hlimit]
            refine ih _ (length_item_lt hr hend hitem) hnext ?_ ?_ ?_ hread rfl
            · show (move m.place found).reverse ++
                  (p'.state.passTrivia.comments.reverse ++ p'.nodes) =
                move m.place (found.reverse ++ (p.state.passTrivia.comments.reverse ++ p.nodes))
              rw [hpass.comments, hnodes, ← move_reverse, ← move_reverse, ← move_append,
                ← move_append]
            · exact ((Flat.item (Rules.level_flat levels)).ok hitem).trans hdepth
            · exact hleads.onLine.trans hline
        | error failure failed =>
            rw [readOn_recovered hr hend hitem] at hread
            have hkept : failure ∈ (readOn (.level levels) true ⟨errorNode failure :: p.flush.nodes,
                failure :: p.failures, failed.resume p.flush.state.rest⟩).failures :=
              failures_readItems _ _ _ (List.mem_cons_self ..)
            rw [hread] at hkept
            change failure ∈ q.failures at hkept
            rw [hclean] at hkept
            contradiction

end

/-! ## Token lists -/

/-- The progress before the first item of a file. -/
def Progress.ofFile (inner : List Token) (last : Position) (limit : Nat) : Progress :=
  ⟨[], [], ⟨inner, last, limit, 0, false, [], []⟩⟩

theorem Progress.ofFile_inStep (inner : List Token) (last : Position) (limit : Nat) :
    (Progress.ofFile inner last limit).InStep Anywhere :=
  ⟨⟨fun _ _ => trivial, trivial, by simp [ofFile]⟩, .nil, rfl⟩

/-- A parse of a file reads it by rules with any levels that are more than its tokens. -/
theorem parse_eq_readOn {inner : List Token} {last : Token} {options : ParseSettings}
    {levels : Nat} (hlast : last.kind = .endOfInput) (hinner : ∀ t ∈ inner, t.kind ≠ .endOfInput)
    (h : inner.length < levels) :
    parse (inner ++ [last]) options = (readOn (.level levels) options.recover
      (.ofFile inner last.location options.maxNesting)).parsed := by
  rw [parse_eq_parsed, readFile, State.ofTokens_ends options.maxNesting hlast hinner]
  have hlevels : (Progress.ofFile inner last.location options.maxNesting).state.rest.length <
      2 * inner.length + 2 := by
    show inner.length < 2 * inner.length + 2
    omega
  exact congrArg Ending.parsed (readOn_level_congr hlevels h)

/-- A parse with recovery reads a file to its end, and its errors are its failures. -/
theorem parse_closed {inner : List Token} {last : Token} {options : ParseSettings} {levels : Nat}
    (hlast : last.kind = .endOfInput) (hinner : ∀ t ∈ inner, t.kind ≠ .endOfInput)
    (hrecover : options.recover = true) (hlevels : inner.length < levels) :
    ∃ p, readOn (.level levels) true (.ofFile inner last.location options.maxNesting) =
        .complete p ∧
      p.InStep Anywhere ∧ parse (inner ++ [last]) options = (Ending.complete p).parsed := by
  have hparse : parse (inner ++ [last]) options = _ := parse_eq_readOn hlast hinner hlevels
  have hsound : (readOn (.level levels) true (.ofFile inner last.location
      options.maxNesting)).Sound Anywhere true :=
    readItems_sound (Progress.ofFile_inStep ..) fun _ => rfl
  rw [hrecover] at hparse
  cases hread : readOn (.level levels) true (.ofFile inner last.location options.maxNesting) with
  | complete p =>
      rw [hread] at hparse hsound
      exact ⟨p, rfl, hsound.1, hparse⟩
  | stopped failure state =>
      rw [hread] at hsound
      exact absurd hsound.1 (by decide)

theorem failures_of_isClean {p : Progress} (h : (Ending.complete p).parsed.isClean = true) :
    p.failures = [] := by
  simpa [Parsed.isClean, Ending.parsed] using h

/-- What is read at other places does not depend on what has been read and noted before. -/
theorem readOn_elsewhere {below : List Token} {stop : Position} {levels limit : Nat}
    {q : Progress} (f : Position → Position)
    (hq : readOn (.level levels) true (.ofFile below stop limit) = .complete q)
    (base : List Node) (failures : List Failure) (warnings : List SkippedMember) :
    ∃ r ns, readOn (.level levels) true
        ⟨base, failures, ⟨move f below, f stop, limit, 0, false, [], warnings⟩⟩ = .complete r ∧
      r.nodes = ns ++ base ∧ List.Forall₂ (MovedTo f) q.nodes ns := by
  let elsewhere : Seam := ⟨f, [], by simp⟩
  have hstart : (Progress.ofFile below stop limit).Over elsewhere base
      ⟨base, failures, ⟨move f below, f stop, limit, 0, false, [], warnings⟩⟩ :=
    ⟨⟨(List.append_nil _).symm, fun _ => rfl, rfl, rfl, rfl, rfl⟩, [], rfl, .nil⟩
  have hends : Ending.Over elsewhere base (.complete q) (readOn (.level levels) true
      ⟨base, failures, ⟨move f below, f stop, limit, 0, false, [], warnings⟩⟩) := by
    rw [← hq]
    exact readOn_over rfl (Progress.ofFile_inStep ..) hstart
  generalize readOn (.level levels) true ⟨base, failures, _⟩ = ending at hends ⊢
  cases hends with
  | @complete _ r hover =>
      obtain ⟨ns, hns, hall⟩ := hover.nodes
      exact ⟨r, ns, rfl, hns, hall⟩

/-- The nodes of a file that is read without a failure, and of what stands behind it. -/
theorem readOn_joined {inner below : List Token} {newline : Token} {levels limit : Nat}
    {p q r : Progress} (f : Position → Position) (last stop : Position)
    (hnewline : newline.kind = .newline)
    (hp : readOn (.level levels) true (.ofFile inner last limit) = .complete p)
    (hclean : p.failures = [])
    (hq : readOn (.level levels) true (.ofFile below stop limit) = .complete q)
    (hr : readOn (.level levels) true
      (.ofFile (inner ++ newline :: move f below) (f stop) limit) = .complete r) :
    ∃ ns, r.nodes = ns ++ p.nodes ∧ List.Forall₂ (MovedTo f) q.nodes ns := by
  have hsame : ∀ ns : List Node, move id ns = ns := fun ns =>
    (Node.movedAll_eq_move ns).symm.trans (Node.movedAll_eq_self ns fun _ _ => rfl)
  let behind : Seam := ⟨id, newline :: move f below, by simp [hnewline]⟩
  have hover : behind.Over (Progress.ofFile inner last limit).state
      (Progress.ofFile (inner ++ newline :: move f below) (f stop) limit).state :=
    ⟨congrArg (· ++ _) (List.map_id inner).symm, by simp [behind], rfl, rfl, rfl, rfl⟩
  obtain ⟨warnings, hthrough⟩ := readOn_through rfl hover rfl rfl rfl hp hclean
  rw [hr, hsame] at hthrough
  obtain ⟨r', ns, hr', hns, hall⟩ := readOn_elsewhere f hq p.nodes [] warnings
  have hsame : r = r' := Ending.complete.inj (hthrough.trans hr')
  exact ⟨ns, hsame ▸ hns, hall⟩

/-- What stands behind a file that is read without a failure adds its own nodes. -/
theorem parse_joined {inner below : List Token} {options : ParseSettings}
    (f : Position → Position) (newline : Token) (last stop : Position)
    (hinner : ∀ t ∈ inner, t.kind ≠ .endOfInput) (hbelow : ∀ t ∈ below, t.kind ≠ .endOfInput)
    (hnewline : newline.kind = .newline) (hrecover : options.recover = true)
    (hclean : (parse (inner ++ [.endOfInput last]) options).isClean = true) :
    ∃ lower, (parse (inner ++ newline :: move f (below ++ [.endOfInput stop])) options).root =
        .plain .program .start
          ((parse (inner ++ [.endOfInput last]) options).root.children ++ lower) ∧
      List.Forall₂ (MovedTo f) (parse (below ++ [.endOfInput stop]) options).root.children
        lower := by
  have hjoined : ∀ t ∈ inner ++ newline :: move f below, t.kind ≠ .endOfInput := by
    intro t ht
    rcases List.mem_append.mp ht with ht | ht
    · exact hinner t ht
    · rcases List.mem_cons.mp ht with rfl | ht
      · rw [hnewline]
        decide
      · obtain ⟨u, hu, rfl⟩ := List.mem_map.mp ht
        exact hbelow u hu
  have htokens : inner ++ newline :: move f (below ++ [.endOfInput stop]) =
      (inner ++ newline :: move f below) ++ [.endOfInput (f stop)] := by
    rw [List.append_assoc, List.cons_append, move_append]
    rfl
  -- Levels that are enough for all three files.
  let levels := inner.length + below.length + 2
  have hlength : (inner ++ newline :: move f below).length = inner.length + below.length + 1 := by
    simp
    omega
  have hlast : ∀ place : Position, (Token.endOfInput place).kind = .endOfInput := fun _ => rfl
  obtain ⟨p, hp, -, habove⟩ := parse_closed (hlast last) hinner hrecover
    (show _ < levels by simp only [levels]; omega)
  obtain ⟨q, hq, -, hlower⟩ := parse_closed (hlast stop) hbelow hrecover
    (show _ < levels by simp only [levels]; omega)
  obtain ⟨r, hr, -, hwhole⟩ := parse_closed (hlast (f stop)) hjoined hrecover
    (show _ < levels by simp only [levels]; omega)
  rw [htokens, hwhole, hlower]
  rw [habove] at hclean ⊢
  obtain ⟨ns, hns, hall⟩ := readOn_joined f last stop hnewline hp
    (failures_of_isClean hclean) hq hr
  refine ⟨ns.reverse, ?_, List.rel_reverse hall⟩
  show Node.plain .program .start r.nodes.reverse =
    .plain .program .start (p.nodes.reverse ++ ns.reverse)
  rw [hns, List.reverse_append]

end CSurvey.Grammar
