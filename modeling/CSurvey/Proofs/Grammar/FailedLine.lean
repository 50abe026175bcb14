import CSurvey.Proofs.Grammar.Recovery

/-! # Failed directive lines

The search for the end of a failed item ends before the newline if the item is a directive line. It
also ends where other items do, at semicolons, braces and directives, so that what follows one of
these on the line is read as an item of its own. -/

namespace CSurvey.Grammar

/-! ## Readings with failures -/

/-- Items are read one after another, and the reading goes on behind those that fail. -/
inductive Progress.Recovers (r : Rules) : Progress → Progress → Prop where
  | refl (p : Progress) : Recovers r p p
  | item {p q : Progress} {found : List Node} {next : State} :
      p.flush.state.rest ≠ [] → Grammar.item r p.flush.state = .ok found next →
      Recovers r ⟨found.reverse ++ p.flush.nodes, p.failures, next⟩ q → Recovers r p q
  | failure {p q : Progress} {failure : Failure} {failed : State} :
      p.flush.state.rest ≠ [] → Grammar.item r p.flush.state = .error failure failed →
      Recovers r ⟨errorNode failure :: p.flush.nodes, failure :: p.failures,
        failed.resume p.flush.state.rest⟩ q → Recovers r p q

theorem Progress.Recovers.readOn_eq {r : Rules} {p q : Progress} (hr : r.Composed)
    (h : Recovers r p q) : readOn r true p = readOn r true q := by
  induction h with
  | refl p => rfl
  | item hgoes hitem _ ih => rw [readOn_ok hr hgoes hitem, ih]
  | failure hgoes hitem _ ih => rw [readOn_recovered hr hgoes hitem, ih]

/-- An item of a file fails, behind whatever has failed before it. -/
structure Fails (tokens : List Token) (options : ParseSettings) (p : Progress) (failure : Failure)
    (failed : State) : Prop where
  reaches : Progress.Recovers (.forTokens (State.ofTokens tokens options.maxNesting).rest)
    ⟨[], [], State.ofTokens tokens options.maxNesting⟩ p
  goesOn : p.flush.state.rest ≠ []
  fails : item (.forTokens (State.ofTokens tokens options.maxNesting).rest) p.flush.state =
    .error failure failed

/-- Behind an item that fails the rest of a file is read, with its error noted. -/
theorem Fails.parse_eq {tokens : List Token} {options : ParseSettings} {p : Progress}
    {failure : Failure} {failed : State} (h : Fails tokens options p failure failed)
    (hrecover : options.recover = true) :
    parse tokens options =
      (readOn (.forTokens (State.ofTokens tokens options.maxNesting).rest) true
        ⟨errorNode failure :: p.flush.nodes, failure :: p.failures,
          failed.resume p.flush.state.rest⟩).parsed := by
  have hr : (Rules.forTokens (State.ofTokens tokens options.maxNesting).rest).Composed :=
    Rules.level_composed _
  rw [← readOn_recovered hr h.goesOn h.fails, ← h.reaches.readOn_eq hr, parse_eq_parsed, readFile,
    hrecover]
  rfl

/-! ## The search for the end -/

/-- The braces that are open behind tokens with so many open before them. -/
def openBraces (braces : Nat) (tokens : List Token) : Nat :=
  braces + tokens.countP (·.kind = .delimiter .leftBrace) -
    tokens.countP (·.kind = .delimiter .rightBrace)

/-- Whether the search for the end of an item that has begun ends with a token, newlines apart. -/
def endsItem (braces : Nat) (t : Token) : Bool :=
  match t.kind with
  | .delimiter .semicolon | .directive _ => braces = 0
  | .delimiter .rightBrace => braces ≤ 1
  | _ => false

theorem openBraces_cons {braces : Nat} {t : Token} (h : endsItem braces t = false)
    (ts : List Token) : openBraces braces (t :: ts) = openBraces (openBraces braces [t]) ts := by
  have hclosed : t.kind = .delimiter .rightBrace → 1 ≤ braces := by
    intro hk
    simp only [endsItem, hk, decide_eq_false_iff_not] at h
    omega
  simp only [openBraces, List.countP_cons, List.countP_nil, decide_eq_true_eq]
  split <;> split
  · simp_all
  · omega
  · have := hclosed ‹_›
    omega
  · omega

/-- A token that does not end the search is passed over. -/
theorem behindItem_goesOn {isLine : Bool} {braces : Nat} {t : Token}
    (hline : t.kind = .newline → isLine = false) (h : endsItem braces t = false)
    (ts : List Token) :
    (behindItem isLine false braces (t :: ts)).2 =
      (behindItem isLine false (openBraces braces [t]) ts).2 := by
  obtain ⟨kind, text, location⟩ := t
  cases kind with
  | newline =>
      obtain rfl := hline rfl
      rfl
  | directive marker =>
      have hbraces : ¬braces = 0 := of_decide_eq_false h
      simp [behindItem, openBraces, hbraces, Token.Kind.isComment]
  | delimiter mark =>
      cases mark with
      | leftBrace => simp [behindItem, openBraces, Token.Kind.isComment]
      | rightBrace =>
          have hbraces : ¬braces ≤ 1 := of_decide_eq_false h
          simp [behindItem, openBraces, hbraces, Token.Kind.isComment]
      | semicolon =>
          have hbraces : ¬braces = 0 := of_decide_eq_false h
          simp [behindItem, openBraces, hbraces, Token.Kind.isComment]
      | _ => rfl
  | _ => rfl

/-- The search ends behind a token that ends it, or before it if that is a directive. -/
theorem behindItem_ends {isLine : Bool} {braces : Nat} {t : Token} (h : endsItem braces t = true)
    (ts : List Token) :
    (behindItem isLine false braces (t :: ts)).2 =
      if t.kind.isDirective then t :: ts else ts := by
  obtain ⟨kind, text, location⟩ := t
  cases kind with
  | directive marker =>
      have hbraces : braces = 0 := of_decide_eq_true h
      simp [behindItem, hbraces, Token.Kind.isComment, Token.Kind.isDirective]
  | delimiter mark =>
      cases mark with
      | rightBrace =>
          have hbraces : braces ≤ 1 := of_decide_eq_true h
          simp [behindItem, hbraces, Token.Kind.isComment, Token.Kind.isDirective]
      | semicolon =>
          have hbraces : braces = 0 := of_decide_eq_true h
          simp [behindItem, hbraces, Token.Kind.isComment, Token.Kind.isDirective]
      | _ => contradiction
  | _ => contradiction

/-- The tokens up to the newline. -/
def lineOf (tokens : List Token) : List Token :=
  tokens.takeWhile (·.kind ≠ .newline)

/-- The newline and the tokens behind it. -/
def behindLine (tokens : List Token) : List Token :=
  tokens.dropWhile (·.kind ≠ .newline)

theorem lineOf_append_behindLine (tokens : List Token) :
    lineOf tokens ++ behindLine tokens = tokens :=
  List.takeWhile_append_dropWhile

theorem length_behindLine_le (tokens : List Token) : (behindLine tokens).length ≤ tokens.length :=
  (List.dropWhile_suffix _).length_le

/-- A token that ends the search leaves a newline exactly if it is the last of its line, and no
directive. -/
theorem behindItem_ends_iff {braces : Nat} {t : Token} (h : endsItem braces t = true)
    (ts : List Token) :
    (behindItem true false braces (t :: ts)).2 = behindLine ts ↔
      t.kind.isDirective = false ∧ lineOf ts = [] := by
  rw [behindItem_ends h]
  cases t.kind.isDirective with
  | true =>
      have hlong : t :: ts ≠ behindLine ts := by
        intro hsame
        have hlength := congrArg List.length hsame
        have hle := length_behindLine_le ts
        rw [List.length_cons] at hlength
        omega
      simpa using hlong
  | false =>
      have hline : ts = behindLine ts ↔ lineOf ts = [] := by
        conv => lhs; lhs; rw [← lineOf_append_behindLine ts]
        exact List.append_left_eq_self
      simpa using hline

/-- The search ends before the newline if, of the tokens that could end it on the line, there is
none but a last one that is no directive. -/
theorem behindItem_eq_behindLine_iff (braces : Nat) (tokens : List Token) :
    (behindItem true false braces tokens).2 = behindLine tokens ↔
      ∀ before t more, lineOf tokens = before ++ t :: more →
        endsItem (openBraces braces before) t = true → t.kind.isDirective = false ∧ more = [] := by
  induction tokens generalizing braces with
  | nil => simp [behindItem, behindLine, lineOf]
  | cons u us ih =>
      by_cases hnewline : u.kind = .newline
      · simp [behindItem, behindLine, lineOf, hnewline]
      · have hline : lineOf (u :: us) = u :: lineOf us := by simp [lineOf, hnewline]
        have hbehind : behindLine (u :: us) = behindLine us := by simp [behindLine, hnewline]
        rw [hline, hbehind]
        cases hends : endsItem braces u with
        | true =>
            rw [behindItem_ends_iff hends]
            constructor
            · rintro ⟨hdirective, hlast⟩ before t more hsplit -
              rw [hlast, List.singleton_eq_append_iff] at hsplit
              obtain ⟨-, hu⟩ | ⟨-, hu⟩ := hsplit
              · obtain ⟨rfl, rfl⟩ := List.cons.inj hu
                exact ⟨hdirective, rfl⟩
              · contradiction
            · exact fun hall => hall [] u (lineOf us) rfl hends
        | false =>
            rw [behindItem_goesOn (fun h => absurd h hnewline) hends, ih]
            constructor
            · intro hlater before t more hsplit ht
              cases before with
              | nil =>
                  obtain ⟨rfl, -⟩ := List.cons.inj hsplit
                  exact absurd (hends.symm.trans ht) Bool.false_ne_true
              | cons v before =>
                  rw [List.cons_append] at hsplit
                  obtain ⟨rfl, hmore⟩ := List.cons.inj hsplit
                  rw [openBraces_cons hends] at ht
                  exact hlater before t more hmore ht
            · intro hall before t more hsplit ht
              rw [← openBraces_cons hends] at ht
              exact hall (u :: before) t more (congrArg (List.cons u) hsplit) ht

/-- The marker of a directive line counts, and does not end it. -/
theorem Token.Kind.counts_of_isDirective {kind : Token.Kind} (h : kind.isDirective = true) :
    kind.isComment = false ∧ kind ≠ .newline ∧ kind ≠ .endOfInput := by
  cases kind <;> simp_all [Token.Kind.isComment, Token.Kind.isDirective]

/-- The search goes on behind the marker that a directive line starts with. -/
theorem State.rest_resume_directive (failed : State) {marker : Token}
    (h : marker.kind.isDirective = true) (after : List Token) :
    (failed.resume (marker :: after)).rest = (behindItem true false 0 after).2 := by
  obtain ⟨kind, text, location⟩ := marker
  cases kind with
  | directive d => rfl
  | _ => contradiction

/-- Where the search ends before the newline, nothing of the line is left but its comments. -/
theorem State.resume_eq_of_rest {failed : State} {marker : Token}
    (hmarker : marker.kind.isDirective = true) {after : List Token}
    (h : (failed.resume (marker :: after)).rest = behindLine after) :
    failed.resume (marker :: after) = ⟨behindLine after, failed.stop, failed.limit, 0, false,
      commentNodes (lineOf after), failed.warnings⟩ := by
  obtain ⟨passed, hpassed, hstate⟩ := failed.resume_eq (marker :: after)
  rw [h] at hpassed hstate
  have hsame : marker :: lineOf after ++ behindLine after = passed ++ behindLine after := by
    rw [← hpassed, List.cons_append, lineOf_append_behindLine]
  obtain rfl := List.append_cancel_right hsame
  have hcomments : commentNodes (marker :: lineOf after) = commentNodes (lineOf after) := by
    simp [commentNodes, (Token.Kind.counts_of_isDirective hmarker).1]
  rw [hstate, hcomments]

/-! ## Whole files -/

/-- Behind a directive line that cannot be read, wherever it stands in a file, reading goes on with
its error noted. It goes on at the end of the line, with nothing of the line but its comments,
exactly if no semicolon, brace or directive on the line ends the search earlier. -/
theorem parse_failedLine {tokens : List Token} {options : ParseSettings} {p : Progress}
    {failure : Failure} {failed : State} {marker : Token} {after : List Token}
    (hrecover : options.recover = true) (h : Fails tokens options p failure failed)
    (hstart : p.flush.state.rest = marker :: after) (hmarker : marker.kind.isDirective = true) :
    let behind := failed.resume (marker :: after)
    parse tokens options =
        (readOn (.forTokens (State.ofTokens tokens options.maxNesting).rest) true
          ⟨errorNode failure :: p.flush.nodes, failure :: p.failures, behind⟩).parsed ∧
      (behind.rest = behindLine after ↔
        ∀ before t more, lineOf after = before ++ t :: more →
          endsItem (openBraces 0 before) t = true → t.kind.isDirective = false ∧ more = []) ∧
      (behind.rest = behindLine after → behind = ⟨behindLine after, failed.stop, failed.limit, 0,
        false, commentNodes (lineOf after), failed.warnings⟩) := by
  refine ⟨?_, ?_, State.resume_eq_of_rest hmarker⟩
  · rw [h.parse_eq hrecover, hstart]
  · rw [failed.rest_resume_directive hmarker]
    exact behindItem_eq_behindLine_iff 0 after

/-- A definition of a number, whose line ends the search at no token. -/
theorem parse_failedLine_number :
    let tokens : List Token := [⟨.directive .definition, "#define", ⟨1, 1⟩⟩,
      ⟨.number, "5", ⟨1, 9⟩⟩, ⟨.blockComment, "/* n */", ⟨1, 11⟩⟩, ⟨.identifier, "x", ⟨1, 19⟩⟩,
      ⟨.newline, "\n", ⟨1, 20⟩⟩, .endOfInput ⟨2, 1⟩]
    ∃ p failure failed after, Fails tokens {} p failure failed ∧
      p.flush.state.rest = ⟨.directive .definition, "#define", ⟨1, 1⟩⟩ :: after ∧
      failed.resume p.flush.state.rest = ⟨[⟨.newline, "\n", ⟨1, 20⟩⟩], ⟨2, 1⟩, 48, 0, false,
        [.texted .comment "/* n */" ⟨1, 11⟩ []], []⟩ := by
  intro tokens
  have hfails : Fails tokens {} ⟨[], [], State.ofTokens tokens 48⟩ _ _ :=
    ⟨.refl _, by decide, rfl⟩
  have hrecover : ({} : ParseSettings).recover = true := rfl
  obtain ⟨-, hwhole, hstate⟩ := parse_failedLine hrecover hfails rfl rfl
  refine ⟨_, _, _, _, hfails, rfl, hstate (hwhole.mpr fun before t more hsplit ht => ?_)⟩
  have hquiet : ∀ t ∈ [⟨.number, "5", ⟨1, 9⟩⟩, ⟨.blockComment, "/* n */", ⟨1, 11⟩⟩,
      (⟨.identifier, "x", ⟨1, 19⟩⟩ : Token)], ∀ braces, endsItem braces t = false := by
    simp [endsItem]
  have hmem : t ∈ before ++ t :: more := by simp
  rw [← hsplit] at hmem
  rw [hquiet t hmem] at ht
  contradiction

/-- A semicolon on the line ends the search, and a declaration behind it is read. -/
theorem resume_semicolon :
    let tokens : List Token := [⟨.directive .definition, "#define", ⟨1, 1⟩⟩,
      ⟨.number, "5", ⟨1, 9⟩⟩, ⟨.delimiter .semicolon, ";", ⟨1, 11⟩⟩,
      ⟨.keyword .intKw, "int", ⟨1, 13⟩⟩, ⟨.identifier, "y", ⟨1, 17⟩⟩,
      ⟨.delimiter .semicolon, ";", ⟨1, 18⟩⟩, ⟨.newline, "\n", ⟨1, 19⟩⟩, .endOfInput ⟨2, 1⟩]
    ∃ p failure failed after, Fails tokens {} p failure failed ∧
      p.flush.state.rest = ⟨.directive .definition, "#define", ⟨1, 1⟩⟩ :: after ∧
      (failed.resume p.flush.state.rest).rest ≠ behindLine after ∧
      (parse tokens {}).root.children.map Node.kind = [.error, .variableDeclaration] := by
  intro tokens
  have hfails : Fails tokens {} ⟨[], [], State.ofTokens tokens 48⟩ _ _ :=
    ⟨.refl _, by decide, rfl⟩
  exact ⟨_, _, _, _, hfails, rfl, by decide, by decide +kernel⟩

end CSurvey.Grammar
