import CSurvey.Proofs.Grammar.Accounts
import CSurvey.Proofs.Grammar.Progress

/-! # Files, item by item

What one round of the reading of a file does, where it goes on behind an item that cannot be read,
and that every round takes a token. -/

namespace CSurvey.Grammar

/-! ## Rounds -/

/-- The only end of input is the last token. -/
def EndsOnce (tokens : List Token) : Prop :=
  ∃ inner last, tokens = inner ++ [last] ∧ last.kind = .endOfInput ∧
    ∀ t ∈ inner, t.kind ≠ .endOfInput

/-- The state before tokens that only the last one ends. -/
theorem State.ofTokens_ends {inner : List Token} {last : Token} (limit : Nat)
    (hlast : last.kind = .endOfInput) (h : ∀ t ∈ inner, t.kind ≠ .endOfInput) :
    State.ofTokens (inner ++ [last]) limit =
      ⟨inner, last.location, limit, 0, false, [], []⟩ := by
  have hend : (inner ++ [last]).getLast? = some last := by simp
  simp only [State.ofTokens, hend]
  rw [if_pos hlast, List.takeWhile_append_of_pos (by simpa using h),
    List.dropWhile_append_of_pos (by simpa using h)]
  simp [hlast]

theorem State.ofTokens_closed {inner : List Token} (last : Position) (limit : Nat)
    (h : ∀ t ∈ inner, t.kind ≠ .endOfInput) :
    State.ofTokens (inner ++ [.endOfInput last]) limit =
      ⟨inner, last, limit, 0, false, [], []⟩ :=
  State.ofTokens_ends limit rfl h

theorem State.ofTokens_rest {inner : List Token} (last : Position) (limit : Nat)
    (h : ∀ t ∈ inner, t.kind ≠ .endOfInput) :
    (State.ofTokens (inner ++ [.endOfInput last]) limit).rest = inner := by
  rw [State.ofTokens_closed last limit h]

/-- The tokens of a file are those before the first end of input. -/
theorem State.ofTokens_rest_eq (tokens : List Token) (limit : Nat) :
    (State.ofTokens tokens limit).rest = tokens.takeWhile fun t => t.kind ≠ .endOfInput := by
  have hends : ∀ place : Position,
      (tokens ++ [Token.endOfInput place]).takeWhile (fun t => t.kind ≠ .endOfInput) =
        tokens.takeWhile fun t => t.kind ≠ .endOfInput := by
    intro place
    rw [List.takeWhile_append]
    split
    · rename_i hall
      rw [(List.takeWhile_prefix _).eq_of_length hall]
      simp [Token.endOfInput]
    · rfl
  unfold State.ofTokens
  dsimp only
  split
  · split
    · rfl
    · exact hends _
  · rename_i hnone
    rw [List.getLast?_eq_none_iff.mp hnone]
    rfl

/-- The progress with the comments before the next item among its nodes. -/
def Progress.flush (p : Progress) : Progress :=
  let here := p.state.passTrivia
  ⟨here.comments.reverse ++ p.nodes, p.failures, { here with comments := [] }⟩

theorem Progress.settled_flush (p : Progress) : p.flush.state.Settled :=
  p.state.settled_passTrivia

theorem Progress.length_flush_le (p : Progress) :
    p.flush.state.rest.length ≤ p.state.rest.length :=
  p.state.length_upcoming_le

theorem readItems_end {r : Rules} {recover : Bool} {fuel : List Token} {p : Progress}
    (h : p.flush.state.rest = []) : readItems r recover fuel p = .complete p.flush := by
  unfold readItems
  dsimp only
  split
  · rfl
  · rfl
  · contradiction

theorem readItems_nil {r : Rules} {recover : Bool} {p : Progress} :
    readItems r recover [] p = .complete p.flush := by
  unfold readItems
  dsimp only
  split
  · rfl
  · rfl
  · contradiction

theorem readItems_cons {r : Rules} {recover : Bool} {x : Token} {fuel : List Token} {p : Progress}
    (h : p.flush.state.rest ≠ []) :
    readItems r recover (x :: fuel) p =
      match item r p.flush.state with
      | .ok found next =>
        readItems r recover fuel ⟨found.reverse ++ p.flush.nodes, p.failures, next⟩
      | .error failure failed =>
        if recover then
          readItems r recover fuel
            ⟨errorNode failure :: p.flush.nodes, failure :: p.failures,
              failed.resume p.flush.state.rest⟩
        else .stopped failure failed := by
  conv => lhs; unfold readItems
  dsimp only
  split
  · contradiction
  · contradiction
  · rename_i hfuel _
    obtain ⟨-, rfl⟩ := List.cons.inj hfuel
    rfl

theorem readItems_ok {r : Rules} {recover : Bool} {x : Token} {fuel : List Token} {p : Progress}
    {found : List Node} {next : State} (h : p.flush.state.rest ≠ [])
    (hitem : item r p.flush.state = .ok found next) :
    readItems r recover (x :: fuel) p =
      readItems r recover fuel ⟨found.reverse ++ p.flush.nodes, p.failures, next⟩ := by
  rw [readItems_cons h, hitem]

theorem readItems_recovered {r : Rules} {x : Token} {fuel : List Token} {p : Progress}
    {failure : Failure} {failed : State} (h : p.flush.state.rest ≠ [])
    (hitem : item r p.flush.state = .error failure failed) :
    readItems r true (x :: fuel) p =
      readItems r true fuel ⟨errorNode failure :: p.flush.nodes, failure :: p.failures,
        failed.resume p.flush.state.rest⟩ := by
  rw [readItems_cons h, hitem]
  exact if_pos rfl

theorem readItems_stopped {r : Rules} {x : Token} {fuel : List Token} {p : Progress}
    {failure : Failure} {failed : State} (h : p.flush.state.rest ≠ [])
    (hitem : item r p.flush.state = .error failure failed) :
    readItems r false (x :: fuel) p = .stopped failure failed := by
  rw [readItems_cons h, hitem]
  exact if_neg Bool.false_ne_true

/-- How a reading ends: with progress of one kind, or with a failure of another. -/
def Ending.Ends (complete : Progress → Prop) (stopped : Failure → State → Prop) : Ending → Prop
  | .complete p => complete p
  | .stopped failure state => stopped failure state

/-- What the comments before an item, an item that is read and an item that is left behind all
keep, the whole reading keeps. -/
theorem readItems_keeps {r : Rules} {recover : Bool} {fuel : List Token} {p : Progress}
    {I : Progress → Prop} {S : Failure → State → Prop} (hflush : ∀ p, I p → I p.flush)
    (hread : ∀ p : Progress, I p.flush → p.flush.state.rest ≠ [] → ∀ found next,
      item r p.flush.state = .ok found next →
        I ⟨found.reverse ++ p.flush.nodes, p.failures, next⟩)
    (hfails : ∀ p : Progress, I p.flush → p.flush.state.rest ≠ [] → ∀ failure failed,
      item r p.flush.state = .error failure failed →
        (recover = true → I ⟨errorNode failure :: p.flush.nodes, failure :: p.failures,
          failed.resume p.flush.state.rest⟩) ∧ (recover = false → S failure failed))
    (h : I p) : (readItems r recover fuel p).Ends I S := by
  induction fuel generalizing p with
  | nil =>
      rw [readItems_nil]
      exact hflush p h
  | cons x fuel ih =>
      have hp := hflush p h
      by_cases hend : p.flush.state.rest = []
      · rw [readItems_end hend]
        exact hp
      · cases hitem : item r p.flush.state with
        | ok found next =>
            rw [readItems_ok hend hitem]
            exact ih (hread p hp hend found next hitem)
        | error failure failed =>
            obtain ⟨hrecovered, hstopped⟩ := hfails p hp hend failure failed hitem
            cases recover with
            | true =>
                rw [readItems_recovered hend hitem]
                exact ih (hrecovered rfl)
            | false =>
                rw [readItems_stopped hend hitem]
                exact hstopped rfl

/-! ## Recovery -/

/-- Some tokens are passed over, and their comments given. -/
def Skips (tokens : List Token) (found : List Node × List Token) : Prop :=
  ∃ passed, tokens = passed ++ found.2 ∧ found.1 = commentNodes passed

namespace Skips

variable {t : Token} {tokens : List Token} {found : List Node × List Token}

theorem refl (tokens : List Token) : Skips tokens ([], tokens) :=
  ⟨[], rfl, rfl⟩

theorem step (ht : t.kind.isComment = false) (h : Skips tokens found) :
    Skips (t :: tokens) found := by
  obtain ⟨passed, rfl, hfound⟩ := h
  exact ⟨t :: passed, rfl, by simpa [commentNodes, ht] using hfound⟩

theorem comment (ht : t.kind.isComment = true) (h : Skips tokens found) :
    Skips (t :: tokens) (asComment t :: found.1, found.2) := by
  obtain ⟨passed, rfl, hfound⟩ := h
  exact ⟨t :: passed, rfl, by simpa [commentNodes, ht] using hfound⟩

theorem length_le (h : Skips tokens found) : found.2.length ≤ tokens.length := by
  obtain ⟨passed, rfl, -⟩ := h
  simp

end Skips

/-- What is passed over behind a failed item gives its comments. -/
theorem skips_behindItem (isLine first : Bool) (braces : Nat) (tokens : List Token) :
    Skips tokens (behindItem isLine first braces tokens) := by
  fun_induction behindItem isLine first braces tokens with
  | case1 => exact .refl []
  | case2 => exact .refl _
  | case3 first braces t rest goOn hn hc comments left hgo ih =>
      have hrest := ih braces
      rw [show behindItem isLine false braces rest = (comments, left) from hgo] at hrest
      exact .comment hc hrest
  | case4 first braces t rest goOn hn hc hk ih => exact .step (by simpa using hc) (ih _)
  | case5 first braces t rest hn hc hk hb ih => exact .step (by simpa using hc) (.refl _)
  | case6 first braces t rest goOn hn hc hk hb ih => exact .step (by simpa using hc) (ih _)
  | case7 first t rest hn hc hk ih => exact .step (by simpa using hc) (.refl _)
  | case8 first braces t rest goOn hn hc hk hb ih => exact .step (by simpa using hc) (ih _)
  | case9 => exact .refl _
  | case10 first braces t rest goOn hn hc marker hk hb ih =>
      exact .step (by simpa using hc) (ih _)
  | case11 first braces t rest goOn hn hc hbrace hclose hsemi hdirective ih =>
      exact .step (by simpa using hc) (ih _)

/-- A failed item is left behind with its first token at least. -/
theorem State.length_resume_lt (failed : State) {start : List Token} (h : start ≠ []) :
    (failed.resume start).rest.length < start.length := by
  obtain ⟨t, ts, rfl⟩ := List.exists_cons_of_ne_nil h
  have hle : ∀ braces,
      (behindItem t.kind.isDirective false braces ts).2.length < (t :: ts).length :=
    fun braces => Nat.lt_succ_of_le (skips_behindItem _ false braces ts).length_le
  have hline : (decide (t.kind = .newline) && t.kind.isDirective) = false := by
    cases t.kind <;> rfl
  show (behindItem t.kind.isDirective true 0 (t :: ts)).2.length < _
  unfold behindItem
  rw [hline]
  simp only [Bool.false_eq_true, if_false]
  split
  · exact hle 0
  · split
    · exact hle _
    · simp
    · simp
    · simpa using hle _
    · exact hle _

/-- Going on behind a failed item accounts for the comments of the item. -/
theorem State.accounts_resume (failed : State) {s : State} (h : s.comments = []) :
    Accounts s (failed.resume s.rest) [] := by
  obtain ⟨passed, hrest, hfound⟩ := skips_behindItem
    ((s.rest.head?.map fun t => t.kind.isDirective).getD false) true 0 s.rest
  refine ⟨passed, hrest, ?_⟩
  rw [h]
  exact hfound

/-! ## Whole files -/

/-- The reading of a file by given rules. -/
def readFile (r : Rules) (tokens : List Token) (options : ParseSettings) : Ending :=
  let start := State.ofTokens tokens options.maxNesting
  readItems r options.recover start.rest ⟨[], [], start⟩

/-- A reading that has ended, as a parsed file. -/
def Ending.parsed : Ending → Parsed
  | .complete p =>
    ⟨.plain .program .start p.nodes.reverse, p.failures.reverse.map Failure.message,
      p.state.warnings.map SkippedMember.message⟩
  | .stopped failure state =>
    ⟨errorNode failure, [failure.message], state.warnings.map SkippedMember.message⟩

/-- A parse is one reading, with rules for the tokens that are left at its start. -/
theorem parse_eq_parsed (tokens : List Token) (options : ParseSettings) :
    parse tokens options =
      (readFile (.forTokens (State.ofTokens tokens options.maxNesting).rest) tokens
        options).parsed := by
  simp only [parse, Session.next, Session.ofTokens, readFile]
  split
  · rename_i p hread
    rw [hread]
    rfl
  · rename_i failure state hread
    rw [hread]
    rfl

end CSurvey.Grammar
