import CSurvey.Proofs.Grammar.Comments
import CSurvey.Proofs.Grammar.Extent
import CSurvey.Proofs.Grammar.Statements

/-! # Errors of a file

An item that cannot be read becomes one error node and one diagnostic, and nothing else does. -/

namespace CSurvey.Grammar

open Moves (move)
open Node (Kind preorderAll)

variable {known : Position → Prop} {recover : Bool} {levels : Nat}

/-- The texts of the errors among some nodes, in their order. -/
def errorTexts (ns : List Node) : List (Option String) :=
  (ns.filter fun n => n.kind = .error).map Node.text?

theorem errorTexts_append (ns ms : List Node) :
    errorTexts (ns ++ ms) = errorTexts ns ++ errorTexts ms := by
  simp [errorTexts]

theorem errorTexts_reverse (ns : List Node) :
    errorTexts ns.reverse = (errorTexts ns).reverse := by
  simp [errorTexts]

@[simp] theorem errorTexts_errorNode (f : Failure) (ns : List Node) :
    errorTexts (errorNode f :: ns) = some f.message :: errorTexts ns := rfl

/-- Among the parts that could be read there are no errors. -/
theorem errorTexts_of_parts {ns : List Node}
    (h : AreOf known Kind.isPart ns) : errorTexts ns = [] := by
  have hnone : ∀ n ∈ ns, ¬(decide (n.kind = .error)) = true := by
    intro n hn herror
    have hpart := (h n hn).2
    rw [of_decide_eq_true herror] at hpart
    contradiction
  rw [errorTexts, List.filter_eq_nil_iff.mpr hnone]
  rfl

/-! ## The place of an error -/

/-- Where no known place is moved, a state stays as it is. -/
theorem State.Within.over {m : Seam} {s : State} (h : s.Within known) (htail : m.tail = [])
    (hm : ∀ p, known p → m.place p = p) : m.Over s s := by
  have htokens : move m.place s.rest = s.rest :=
    move_eq_self fun t ht => congrArg (Token.mk t.kind t.text) (hm _ (h.rest t ht))
  have hcomments : move m.place s.comments = s.comments := move_eq_self fun n hn =>
    n.moved_eq_self fun _ hc => hm _ ((h.comments n hn).1.preorder hc).known
  refine ⟨?_, fun _ => (hm _ h.stop).symm, rfl, rfl, rfl, hcomments.symm⟩
  rw [htail, List.append_nil, htokens]

/-- An item fails at a place that it was given. -/
theorem known_of_error {s failed : State} {failure : Failure} (h : s.Within known)
    (hopen : s.Open) (hitem : item (.level levels) s = .error failure failed) :
    known failure.location := by
  classical
  -- With all other places moved the item is still the same, and so is its failure.
  let elsewhere : Seam := ⟨fun p => if known p then p else ⟨p.line + 1, p.column⟩, [], by simp⟩
  obtain ⟨failed', hitem', -⟩ := (Repeats.item (Rules.level_repeats elsewhere levels)).error rfl
    hopen (h.over rfl fun p hp => if_pos hp) hitem
  obtain ⟨hfailure, -⟩ := EStateM.Result.error.inj (hitem.symm.trans hitem')
  have hplace : failure.location = elsewhere.place failure.location :=
    congrArg Failure.location hfailure
  by_contra hnot
  have hline := congrArg Position.line (hplace.trans (if_neg hnot))
  simp at hline

/-! ## Reading a file -/

/-- The nodes read so far are parts of a file, and their errors are the failures so far. -/
structure Progress.InStep (known : Position → Prop) (p : Progress) : Prop where
  within : p.state.Within known
  items : AreOf known Kind.isItem p.nodes
  errors : errorTexts p.nodes = p.failures.map fun f => some f.message

namespace Progress.InStep

variable {p : Progress}

theorem flush (h : p.InStep known) : p.flush.InStep known := by
  have hcomments : AreOf known (· = .comment) p.state.passTrivia.comments := by
    intro n hn
    have hn := h.within.passTrivia.comments n hn
    exact ⟨hn.1, decide_eq_true hn.2⟩
  refine ⟨flush_within h.within, (hcomments.reverse.mono (by decide)).append h.items, ?_⟩
  show errorTexts (p.state.passTrivia.comments.reverse ++ p.nodes) = _
  rw [errorTexts_append, errorTexts_of_parts (hcomments.reverse.mono (by decide)), h.errors]
  rfl

/-- An item that is read adds parts and no failure. -/
theorem read {found : List Node} {next : State} (h : p.InStep known)
    (hitem : item (.level levels) p.state = .ok found next) :
    InStep known ⟨found.reverse ++ p.nodes, p.failures, next⟩ := by
  obtain ⟨hnext, hfound⟩ := Yields.item levels h.within hitem
  refine ⟨hnext, (hfound.reverse.mono (by decide)).append h.items, ?_⟩
  show errorTexts (found.reverse ++ p.nodes) = _
  rw [errorTexts_append, errorTexts_of_parts hfound.reverse, h.errors]
  rfl

theorem errorNode_isOf {f : Failure} (h : known f.location) :
    IsOf known Kind.isItem (errorNode f) :=
  .texted rfl h (by simp) rfl

/-- An item that cannot be read adds an error and its failure. -/
theorem recovered {failure : Failure} {failed : State} (h : p.InStep known) (hopen : p.state.Open)
    (hitem : item (.level levels) p.state = .error failure failed) :
    InStep known ⟨errorNode failure :: p.nodes, failure :: p.failures,
      failed.resume p.state.rest⟩ := by
  have hleads := (Composed.item (Rules.level_composed levels)).leads_error hitem
  have hplace := known_of_error h.within hopen hitem
  refine ⟨h.within.resume hleads, .cons (errorNode_isOf hplace) h.items, ?_⟩
  rw [errorTexts_errorNode, h.errors]
  rfl

end Progress.InStep

/-- How the reading of a file may end: with nodes and failures in step, or at the first failure. -/
def Ending.Sound (known : Position → Prop) (recover : Bool) : Ending → Prop
  | .complete p => p.InStep known ∧ (recover = false → p.failures = [])
  | .stopped failure _ => recover = false ∧ known failure.location

theorem readItems_sound {fuel : List Token} {p : Progress} (h : p.InStep known)
    (hp : recover = false → p.failures = []) :
    (readItems (.level levels) recover fuel p).Sound known recover := by
  have hopen : ∀ p : Progress, p.flush.state.rest ≠ [] → p.flush.state.Open := by
    intro p hend
    rwa [State.Open, p.settled_flush]
  refine readItems_keeps (I := fun p => p.InStep known ∧ (recover = false → p.failures = []))
    (S := fun failure _ => recover = false ∧ known failure.location) ?_ ?_ ?_ ⟨h, hp⟩
  · exact fun p h => ⟨h.1.flush, h.2⟩
  · exact fun p h _ found next hitem => ⟨h.1.read hitem, h.2⟩
  · intro p h hend failure failed hitem
    refine ⟨fun hrecover => ⟨h.1.recovered (hopen p hend) hitem, by simp [hrecover]⟩, fun hno => ?_⟩
    exact ⟨hno, known_of_error h.1.within (hopen p hend) hitem⟩

theorem readFile_sound {tokens : List Token} {options : ParseSettings} (levels : Nat)
    (h : (State.ofTokens tokens options.maxNesting).Within known) :
    (readFile (.level levels) tokens options).Sound known options.recover :=
  readItems_sound ⟨h, .nil, rfl⟩ fun _ => rfl

theorem State.ofTokens_anywhere (tokens : List Token) (limit : Nat) :
    (State.ofTokens tokens limit).Within Anywhere :=
  ⟨fun _ _ => trivial, trivial, by simp [State.ofTokens]⟩

/-- Below the parts of a file there are no errors. -/
theorem AreOf.ne_error {ns : List Node} (h : AreOf known Kind.isItem ns) :
    ∀ c ∈ ns, ∀ n ∈ preorderAll c.children, n.kind ≠ .error := by
  intro c hc n hn herror
  have hprogram : c.kind ≠ .program := by
    intro hprogram
    have hitem := (h c hc).2
    rw [hprogram] at hitem
    contradiction
  have hinner := (h c hc).1.isInner hprogram hn
  rw [herror] at hinner
  contradiction

theorem AreOf.anyHasErrors_iff {ns : List Node} (h : AreOf known Kind.isItem ns) :
    Node.anyHasErrors ns = true ↔ errorTexts ns ≠ [] := by
  have hmem : errorTexts ns ≠ [] ↔ ∃ c ∈ ns, c.kind = .error := by
    simp [errorTexts]
  rw [hmem, Node.anyHasErrors_iff]
  constructor
  · rintro ⟨m, hm, herror⟩
    obtain ⟨⟨kind, value, children, location⟩, hc, hm⟩ := Node.mem_preorderAll.mp hm
    rcases List.mem_cons.mp hm with rfl | hm
    · exact ⟨_, hc, herror⟩
    · exact absurd herror (h.ne_error _ hc m hm)
  · rintro ⟨⟨kind, value, children, location⟩, hc, herror⟩
    exact ⟨_, Node.mem_preorderAll.mpr ⟨_, hc, List.mem_cons_self ..⟩, herror⟩

end Grammar

open Grammar
open Node (preorderAll)

/-- With recovery the root is a whole file. -/
theorem parse_root {tokens : List Token} {options : ParseSettings}
    (h : options.recover = true) :
    (parse tokens options).root = .plain .program .start (parse tokens options).root.children := by
  let start := State.ofTokens tokens options.maxNesting
  have hsound : (readFile (.forTokens start.rest) tokens options).Sound Anywhere options.recover :=
    readFile_sound _ (State.ofTokens_anywhere tokens options.maxNesting)
  rw [parse_eq_parsed]
  cases hread : readFile (.forTokens start.rest) tokens options with
  | complete p => rfl
  | stopped failure state =>
      rw [hread] at hsound
      exact absurd (h.symm.trans hsound.1) (by decide)

/-- Diagnostics and errors agree. A root is a whole file whose errors are the diagnostics in their
order, none of them without recovery; or, without recovery, it is the one error. No errors stand
deeper in the tree. -/
theorem parse_errors (tokens : List Token) (options : ParseSettings) :
    let parsed := parse tokens options
    (parsed.root.kind = .program ∧
          errorTexts parsed.root.children = parsed.diagnostics.map some ∧
          (options.recover = false → parsed.diagnostics = []) ∨
        options.recover = false ∧ ∃ text location,
          parsed.root = .texted .error text location [] ∧ parsed.diagnostics = [text]) ∧
      (∀ c ∈ parsed.root.children, ∀ n ∈ preorderAll c.children, n.kind ≠ .error) ∧
      (parsed.root.hasErrors = true ↔ parsed.isClean = false) := by
  let start := State.ofTokens tokens options.maxNesting
  have hsound : (readFile (.forTokens start.rest) tokens options).Sound Anywhere options.recover :=
    readFile_sound _ (State.ofTokens_anywhere tokens options.maxNesting)
  rw [parse_eq_parsed]
  cases hread : readFile (.forTokens start.rest) tokens options with
  | stopped failure state =>
      rw [hread] at hsound
      refine ⟨.inr ⟨hsound.1, failure.message, failure.location, rfl, rfl⟩, ?_, ?_⟩
      · simp [Ending.parsed, errorNode, Node.texted]
      · simp [Ending.parsed, errorNode, Node.texted, Parsed.isClean, Node.hasErrors]
  | complete p =>
      rw [hread] at hsound
      obtain ⟨hstep, hclean⟩ := hsound
      have hitems := hstep.items.reverse
      have herrors : errorTexts p.nodes.reverse =
          (p.failures.reverse.map Failure.message).map some := by
        rw [errorTexts_reverse, hstep.errors]
        simp
      refine ⟨.inl ⟨rfl, herrors, fun hrecover => ?_⟩, hitems.ne_error, ?_⟩
      · simp [Ending.parsed, hclean hrecover]
      · have hroot : (Ending.complete p).parsed.root.hasErrors =
            Node.anyHasErrors p.nodes.reverse := rfl
        rw [hroot, hitems.anyHasErrors_iff, herrors]
        simp [Ending.parsed, Parsed.isClean]

end CSurvey
