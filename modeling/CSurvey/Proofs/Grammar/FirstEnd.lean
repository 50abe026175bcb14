import CSurvey.Proofs.Grammar.BraceDepth
import CSurvey.Proofs.Grammar.Positions

/-! # The first end of input

A list of tokens is read up to its first end of input, wherever that stands. What follows is never
looked at, and the search for the next token always comes to that end. -/

namespace CSurvey.Grammar

variable {c : Course} {tokens : List Token} {options : ParseSettings}

/-! ## Courses of lists -/

/-- A list with an end of input has a first one. -/
theorem exists_course (limit : Nat) (h : ∃ x ∈ tokens, x.kind = .endOfInput) :
    ∃ c : Course, c.limit = limit ∧ tokens = c.inner ++ c.stop :: c.behind := by
  have hfound : (tokens.find? fun x => x.kind = .endOfInput).isSome := by
    rw [List.find?_isSome]
    simpa using h
  obtain ⟨stop, hstop⟩ := Option.isSome_iff_exists.mp hfound
  obtain ⟨hends, inner, behind, htokens, hinner⟩ := List.find?_eq_some_iff_append.mp hstop
  exact ⟨⟨inner, stop, behind, limit, by simpa using hends, by simpa using hinner⟩, rfl, htokens⟩

theorem closed_eq_append (tokens : List Token) : ∃ more, closed tokens = tokens ++ more := by
  unfold closed
  split
  · split
    · exact ⟨[], (List.append_nil _).symm⟩
    · exact ⟨_, rfl⟩
  · rename_i hnone
    rw [List.getLast?_eq_none_iff.mp hnone]
    exact ⟨_, rfl⟩

theorem exists_end_closed (tokens : List Token) : ∃ x ∈ closed tokens, x.kind = .endOfInput := by
  unfold closed
  split
  · rename_i t hlast
    by_cases hends : t.kind = .endOfInput
    · rw [if_pos hends]
      exact ⟨t, List.mem_of_getLast? hlast, hends⟩
    · rw [if_neg hends]
      exact ⟨.endOfInput t.location, by simp, rfl⟩
  · exact ⟨.endOfInput .start, by simp, rfl⟩

/-- A list up to an index at which it ends the input has its first end there at the latest. -/
theorem exists_course_take {e : Nat} {z : Token} (limit : Nat) (hat : tokens[e]? = some z)
    (hends : z.kind = .endOfInput) :
    ∃ c : Course, c.limit = limit ∧ tokens.take (e + 1) = c.inner ++ c.stop :: c.behind ∧
      c.inner.length ≤ e := by
  have hmem : z ∈ tokens.take (e + 1) := by
    rw [List.take_add_one, hat]
    simp
  obtain ⟨c, hlimit, htake⟩ := exists_course limit ⟨z, hmem, hends⟩
  have hlength := List.length_take_le (e + 1) tokens
  rw [htake, List.length_append, List.length_cons] at hlength
  exact ⟨c, hlimit, htake, by omega⟩

/-! ## Before the first token -/

namespace Course

/-- The state before a list knows the tokens before its first end, and the place of that end. -/
theorem ofTokens_eq (h : closed tokens = c.inner ++ c.stop :: c.behind) :
    State.ofTokens tokens c.limit = ⟨c.inner, c.stop.location, c.limit, 0, false, [], []⟩ := by
  have hopen : ∀ x ∈ c.inner, decide (x.kind ≠ .endOfInput) = true :=
    fun x hx => decide_eq_true (c.inner_goesOn x hx)
  have hstop : decide (c.stop.kind ≠ .endOfInput) = false := by simp [c.stop_ends]
  have hrest : (closed tokens).takeWhile (fun x => x.kind ≠ .endOfInput) = c.inner := by
    rw [h, List.takeWhile_append_of_pos hopen, List.takeWhile_cons_of_neg (by simp [hstop]),
      List.append_nil]
  have hclosing : (closed tokens).dropWhile (fun x => x.kind ≠ .endOfInput) =
      c.stop :: c.behind := by
    rw [h, List.dropWhile_append_of_pos hopen, List.dropWhile_cons_of_neg (by simp [hstop])]
  calc State.ofTokens tokens c.limit
      = ⟨(closed tokens).takeWhile fun x => x.kind ≠ .endOfInput,
          ((((closed tokens).dropWhile fun x => x.kind ≠ .endOfInput).head?.map
            Token.location).getD .start), c.limit, 0, false, [], []⟩ := rfl
    _ = ⟨c.inner, c.stop.location, c.limit, 0, false, [], []⟩ := by
        rw [hrest, hclosing]
        rfl

theorem length_inner_le (h : closed tokens = c.inner ++ c.stop :: c.behind) :
    c.inner.length ≤ tokens.length := by
  have hrest := congrArg State.rest (c.ofTokens_eq h)
  rw [State.ofTokens_rest_eq] at hrest
  rw [← show _ = c.inner from hrest]
  exact (List.takeWhile_prefix _).length_le

theorem shows_ofTokens (h : closed tokens = c.inner ++ c.stop :: c.behind) :
    c.Shows (.ofTokens tokens c.limit) (.ofTokens tokens c.limit) := by
  rw [c.ofTokens_eq h]
  exact {
    tokens := h
    rest := rfl
    stop := rfl
    limit := ⟨rfl, rfl⟩
    depth := rfl
    onLine := rfl
    comments := rfl
    warnings := rfl
    position_le := Nat.zero_le _
    highest_le := Nat.zero_le _
    depth_le := Nat.zero_le _
    deepest_le := Nat.zero_le _ }

/-- Parsing a list by positions comes to what parsing the list comes to. -/
theorem exists_scanFile (h : closed tokens = c.inner ++ c.stop :: c.behind)
    (hlimit : c.limit = options.maxNesting)
    (m : Routine.For (item (.forTokens (State.ofTokens tokens options.maxNesting).rest)))
    {budget : Nat} (hbudget : c.inner.length < budget) :
    ∃ u, scanFile budget m.1 tokens options = some (parse tokens options, u) ∧
      c.Shows u (readFile (.forTokens (State.ofTokens tokens options.maxNesting).rest) tokens
        options).state := by
  have hshows := c.shows_ofTokens h
  have hrest := congrArg State.rest (c.ofTokens_eq h)
  rw [hlimit] at hshows hrest
  have hrounds : (State.ofTokens tokens options.maxNesting).rest.length < budget := by
    rw [hrest]
    exact hbudget
  have hlevels : (State.ofTokens tokens options.maxNesting).rest.length <
      2 * (State.ofTokens tokens options.maxNesting).rest.length + 2 := by
    omega
  rw [parse_eq_parsed]
  exact exists_readItems (p := ⟨[], [], _⟩) m hbudget hshows hrounds hlevels

end Course

/-- The same state before two lists makes their parses the same. -/
theorem parse_congr {tokens' : List Token}
    (h : State.ofTokens tokens options.maxNesting = State.ofTokens tokens' options.maxNesting) :
    parse tokens options = parse tokens' options := by
  unfold parse Session.ofTokens
  rw [h]

/-- A list is parsed as if it ended with any end of input in it. A parse of the whole list by
positions never is at a position behind that end, and finds a token at every index at which it looks
for one. No struct body has more braces closed than opened in what it passes over. -/
theorem parse_take_end {e : Nat} {z : Token} (hat : tokens[e]? = some z)
    (hends : z.kind = .endOfInput) (options : ParseSettings) :
    parse (tokens.take (e + 1)) options = parse tokens options ∧
      Nonempty (Routine.For
        (item (.forTokens (State.ofTokens tokens options.maxNesting).rest))) ∧
      (∀ (m : Routine.For (item (.forTokens (State.ofTokens tokens options.maxNesting).rest)))
        (spare : Nat), ∃ final,
          scanFile (tokens.length + spare) m.1 tokens options =
            some (parse tokens options, final) ∧
          final.highest ≤ e) ∧
      ∀ below r tag, structBodyWith (passBracesOr below) r tag = structBody r tag := by
  obtain ⟨c, hlimit, htake, hle⟩ := exists_course_take options.maxNesting hat hends
  have hlt : e < tokens.length := (List.getElem?_eq_some_iff.mp hat).1
  obtain ⟨more, hmore⟩ := closed_eq_append tokens
  obtain ⟨more', hmore'⟩ := closed_eq_append (tokens.take (e + 1))
  -- The list and its cut have the same course up to the first end.
  let whole : Course := { c with behind := c.behind ++ tokens.drop (e + 1) ++ more }
  let cut : Course := { c with behind := c.behind ++ more' }
  have hwhole : closed tokens = whole.inner ++ whole.stop :: whole.behind := by
    rw [hmore, ← List.take_append_drop (e + 1) tokens, htake]
    simp [whole]
  have hcut : closed (tokens.take (e + 1)) = cut.inner ++ cut.stop :: cut.behind := by
    rw [hmore', htake]
    simp [cut]
  refine ⟨parse_congr ?_, Routine.nonempty_for_item _, ?_, structBodyWith_passBracesOr⟩
  · rw [← hlimit]
    exact (cut.ofTokens_eq hcut).trans (whole.ofTokens_eq hwhole).symm
  · intro m spare
    have hbudget : c.inner.length < tokens.length + spare := by omega
    obtain ⟨u, hscan, hshows⟩ := whole.exists_scanFile hwhole hlimit m hbudget
    exact ⟨u, hscan, Nat.le_trans hshows.highest_le hle⟩

/-- An end of input in the body of a struct, with the rest of the struct behind it. -/
theorem parse_take_end_struct :
    let tokens : List Token := [⟨.keyword .structKw, "struct", ⟨1, 1⟩⟩, ⟨.identifier, "A", ⟨1, 8⟩⟩,
      ⟨.delimiter .leftBrace, "\x7b", ⟨1, 10⟩⟩, .endOfInput ⟨1, 11⟩,
      ⟨.delimiter .rightBrace, "\x7d", ⟨2, 1⟩⟩, ⟨.delimiter .semicolon, ";", ⟨2, 2⟩⟩]
    tokens[3]? = some (.endOfInput ⟨1, 11⟩) ∧
      (Token.endOfInput ⟨1, 11⟩).kind = .endOfInput ∧
      (parse tokens {}).isClean = false ∧
      parse (tokens.take 4) {} = parse tokens {} ∧
      ∃ m final, scanFile 6 m tokens {} = some (parse tokens {}, final) ∧ final.highest ≤ 3 := by
  intro tokens
  have hat : tokens[3]? = some (.endOfInput ⟨1, 11⟩) := rfl
  obtain ⟨hcut, ⟨m⟩, hscan, -⟩ := parse_take_end hat rfl {}
  obtain ⟨final, hfinal, hle⟩ := hscan m 0
  exact ⟨hat, rfl, by decide +kernel, hcut, m.1, final, hfinal, hle⟩

end CSurvey.Grammar
