import CSurvey.Proofs.Grammar.Trees

/-! # What stands at the end of input

An item that is read gives no node the place of the end of input: with another line behind it, it
is read in the same way, and the end is elsewhere. Only an error can stand there. -/

namespace CSurvey

namespace Grammar

open Moves (move)
open Node (Kind preorderAll)

variable {known : Position → Prop} {levels : Nat}

/-! ## Items -/

/-- All places that a state can give to a node are known, but for the end of input. -/
structure State.Inside (s : State) (known : Position → Prop) : Prop where
  rest : ∀ t ∈ s.rest, known t.location
  comments : AreOf known (· = .comment) s.comments

namespace State.Inside

variable {s t : State}

theorem commentNodes {tokens : List Token} (h : ∀ t ∈ tokens, known t.location) :
    AreOf known (· = .comment) (commentNodes tokens) := by
  intro n hn
  obtain ⟨t, ht, rfl⟩ := List.mem_map.mp hn
  exact ⟨asComment_fits (h t (List.mem_filter.mp ht).1), rfl⟩

theorem passTrivia (h : s.Inside known) : s.passTrivia.Inside known where
  rest t ht := h.rest t ((List.dropWhile_suffix s.isPassed).mem ht)
  comments := h.comments.append
    (commentNodes fun t ht => h.rest t ((List.takeWhile_prefix s.isPassed).mem ht))

theorem resume (h : s.Inside known) (failed : State) : (failed.resume s.rest).Inside known := by
  obtain ⟨passed, hrest, hfound⟩ := skips_behindItem
    ((s.rest.head?.map fun t => t.kind.isDirective).getD false) true 0 s.rest
  have hsplit : s.rest = passed ++ (failed.resume s.rest).rest := hrest
  have hknown := h.rest
  rw [hsplit, List.forall_mem_append] at hknown
  refine ⟨hknown.2, ?_⟩
  show AreOf known _ (behindItem _ true 0 s.rest).1
  rw [hfound]
  exact commentNodes hknown.1

theorem within (h : s.Inside known) (hstop : known s.stop) : s.Within known :=
  ⟨h.rest, hstop, fun n hn => ⟨(h.comments n hn).1, of_decide_eq_true (h.comments n hn).2⟩⟩

end State.Inside

/-- An item that is read stands at the places of tokens, not at the end of input. -/
theorem State.Inside.item {s next : State} {found : List Node} (h : s.Inside known)
    (hopen : s.Open) (hitem : Grammar.item (.level levels) s = .ok found next) :
    next.Inside known ∧ AreOf known Kind.isPart found := by
  obtain ⟨first, more, hup⟩ := List.exists_cons_of_ne_nil hopen
  have hfirst : known first.location := by
    refine h.rest first ((List.dropWhile_suffix s.isPassed).mem ?_)
    show first ∈ s.upcoming
    rw [hup]
    exact List.mem_cons_self ..
  -- The same item in front of a line, with the end of input at a place that is known.
  let line : Token := ⟨.newline, "\n", first.location⟩
  let longer : Seam := ⟨id, [line], by simp [line]⟩
  let s' : State := { s with rest := s.rest ++ [line], stop := first.location }
  have hover : longer.Over s s' := by
    refine ⟨?_, by simp [longer], rfl, rfl, rfl, (Node.move_id s.comments).symm⟩
    exact congrArg (· ++ [line]) (List.map_id s.rest).symm
  have hinside : s'.Inside known := by
    refine ⟨?_, h.comments⟩
    rw [List.forall_mem_append]
    exact ⟨h.rest, by simpa [line] using hfirst⟩
  obtain ⟨next', hitem', hover'⟩ := (Repeats.item (Rules.level_repeats longer levels)).ok hopen
    hover hitem (.inr trivial)
  obtain ⟨hwithin, hfound⟩ := Yields.item levels (hinside.within hfirst) hitem'
  have hcomments := hover'.comments
  rw [Node.move_id] at hcomments
  rw [Node.move_id] at hfound
  refine ⟨⟨fun t ht => hwithin.rest t ?_, fun n hn => ?_⟩, hfound⟩
  · rw [hover'.rest]
    refine List.mem_append_left _ ?_
    rwa [show move longer.place next.rest = next.rest from List.map_id next.rest]
  · rw [← hcomments] at hn
    exact ⟨(hwithin.comments n hn).1, decide_eq_true (hwithin.comments n hn).2⟩

/-! ## Files -/

/-- A node that was read stands inside; an error may also stand at the end of input. -/
def StandsBefore (known : Position → Prop) (stop : Position) (n : Node) : Prop :=
  IsOf known Kind.isPart n ∨
    ∃ failure, n = errorNode failure ∧ (known failure.location ∨ failure.location = stop)

/-- All nodes so far stand inside, but for errors at the end of input. -/
structure Progress.Stands (known : Position → Prop) (stop : Position) (p : Progress) : Prop where
  inside : p.state.Inside known
  stop_eq : p.state.stop = stop
  nodes : ∀ n ∈ p.nodes, StandsBefore known stop n

namespace Progress.Stands

variable {stop : Position} {p : Progress}

theorem flush (h : p.Stands known stop) : p.flush.Stands known stop := by
  refine ⟨⟨h.inside.passTrivia.rest, .nil⟩, h.stop_eq, ?_⟩
  show ∀ n ∈ p.state.passTrivia.comments.reverse ++ p.nodes, _
  rw [List.forall_mem_append]
  exact ⟨fun n hn => .inl ((h.inside.passTrivia.comments.reverse.mono (by decide)) n hn), h.nodes⟩

theorem read (h : p.flush.Stands known stop) (hgoes : p.flush.state.rest ≠ []) {found : List Node}
    {next : State} (hitem : item (.level levels) p.flush.state = .ok found next) :
    Stands known stop ⟨found.reverse ++ p.flush.nodes, p.failures, next⟩ := by
  have hopen : p.flush.state.Open := by rwa [State.Open, p.settled_flush]
  obtain ⟨hinside, hfound⟩ := h.inside.item hopen hitem
  have hleads := (Composed.item (Rules.level_composed levels)).leads hitem
  refine ⟨hinside, hleads.stop.trans h.stop_eq, ?_⟩
  show ∀ n ∈ found.reverse ++ p.flush.nodes, _
  rw [List.forall_mem_append]
  exact ⟨fun n hn => .inl (hfound.reverse n hn), h.nodes⟩

theorem failure_location (h : p.flush.Stands known stop) (hgoes : p.flush.state.rest ≠ [])
    {failure : Failure} {failed : State}
    (hitem : item (.level levels) p.flush.state = .error failure failed) :
    known failure.location ∨ failure.location = stop := by
  have hopen : p.flush.state.Open := by rwa [State.Open, p.settled_flush]
  have hwithin : p.flush.state.Within fun l => known l ∨ l = stop :=
    ⟨fun t ht => .inl (h.inside.rest t ht), .inr h.stop_eq, by simp [Progress.flush]⟩
  exact known_of_error hwithin hopen hitem

theorem recovered (h : p.flush.Stands known stop) (hgoes : p.flush.state.rest ≠ [])
    {failure : Failure} {failed : State}
    (hitem : item (.level levels) p.flush.state = .error failure failed) :
    Stands known stop ⟨errorNode failure :: p.flush.nodes, failure :: p.failures,
      failed.resume p.flush.state.rest⟩ := by
  have hleads := (Composed.item (Rules.level_composed levels)).leads_error hitem
  refine ⟨h.inside.resume failed, hleads.stop.trans h.stop_eq, ?_⟩
  show ∀ n ∈ errorNode failure :: p.flush.nodes, _
  rw [List.forall_mem_cons]
  exact ⟨.inr ⟨failure, rfl, h.failure_location hgoes hitem⟩, h.nodes⟩

end Progress.Stands

/-- A reading gives no node but errors the place of the end of input. -/
theorem readItems_stands {recover : Bool} {fuel : List Token} {p : Progress} {stop : Position}
    (h : p.Stands known stop) :
    (readItems (.level levels) recover fuel p).Ends (Progress.Stands known stop)
      fun failure _ => known failure.location ∨ failure.location = stop := by
  refine readItems_keeps (fun p hp => hp.flush) (fun p hp hgoes found next hitem => ?_)
    (fun p hp hgoes failure failed hitem => ⟨fun _ => ?_, fun _ => ?_⟩) h
  · exact hp.read hgoes hitem
  · exact hp.recovered hgoes hitem
  · exact hp.failure_location hgoes hitem

theorem readFile_stands {inner : List Token} {last : Token} (hlast : last.kind = .endOfInput)
    (hinner : ∀ t ∈ inner, t.kind ≠ .endOfInput) (hknown : ∀ t ∈ inner, known t.location)
    (options : ParseSettings) :
    (readFile (.level levels) (inner ++ [last]) options).Ends
      (Progress.Stands known last.location)
      fun failure _ => known failure.location ∨ failure.location = last.location := by
  have hstart := State.ofTokens_ends options.maxNesting hlast hinner
  refine readItems_stands ⟨⟨?_, ?_⟩, ?_, by simp⟩
  · rw [hstart]
    exact hknown
  · rw [hstart]
    exact .nil
  · rw [hstart]

end Grammar

open Grammar

/-- In a parsed file only the root and errors may stand elsewhere than a token before the end of
input does: the root at the start of the text, and an error at the end. -/
theorem parse_places {inner : List Token} {last : Token} (hlast : last.kind = .endOfInput)
    (hinner : ∀ t ∈ inner, t.kind ≠ .endOfInput) (options : ParseSettings) :
    ∀ n ∈ (parse (inner ++ [last]) options).root.preorder,
      n.kind = .program ∧ n.location = .start ∨ (∃ t ∈ inner, t.location = n.location) ∨
        n.kind = .error ∧ n.location = last.location := by
  let known := fun l => ∃ t ∈ inner, t.location = l
  have hnode : ∀ n, StandsBefore known last.location n → ∀ m ∈ n.preorder,
      known m.location ∨ m.kind = .error ∧ m.location = last.location := by
    rintro n (⟨hfits, -⟩ | ⟨failure, rfl, hplace⟩) m hm
    · exact .inl (hfits.preorder hm).known
    · obtain rfl : m = errorNode failure := by
        simpa [errorNode, Node.texted, Node.preorder, Node.preorderAll] using hm
      exact hplace.imp_right fun hstop => ⟨rfl, hstop⟩
  let levels := 2 * (State.ofTokens (inner ++ [last]) options.maxNesting).rest.length + 2
  have hends : (readFile (.level levels) (inner ++ [last]) options).Ends
      (Progress.Stands known last.location) _ :=
    readFile_stands hlast hinner (fun t ht => ⟨t, ht, rfl⟩) options
  intro n hn
  have hroot : (parse (inner ++ [last]) options).root =
      (readFile (.level levels) (inner ++ [last]) options).parsed.root :=
    congrArg Parsed.root (parse_eq_parsed _ options)
  rw [hroot] at hn
  generalize readFile (.level levels) (inner ++ [last]) options = ending at hn hends
  cases ending with
  | complete p =>
      rcases List.mem_cons.mp hn with rfl | hn
      · exact .inl ⟨rfl, rfl⟩
      · obtain ⟨c, hc, hn⟩ := Node.mem_preorderAll.mp hn
        exact .inr (hnode c (hends.nodes c (List.mem_reverse.mp hc)) n hn)
  | stopped failure state =>
      exact .inr (hnode _ (.inr ⟨failure, rfl, hends⟩) n hn)

end CSurvey
