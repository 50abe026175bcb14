import CSurvey.Proofs.Grammar.Branches
import CSurvey.Proofs.Grammar.Limits
import CSurvey.Proofs.Survey.Counting
import CSurvey.Proofs.Survey.Order

/-! # Complexity and keywords

The complexity of a survey is a count of nodes: functions that are defined, and branches. Where each
item of a file is a declaration, and neither structs nor directive lines pass tokens over, the
branches are the keywords that open them. -/

namespace CSurvey

open Node (branches counted inFamily)

/-! ## Definitions and branches -/

/-- Among the functions that are listed those with a body are the definitions. -/
theorem Survey.length_definitions {a : Survey} {ns : List Node} (h : a.Lists ns) :
    a.definitions.length = ns.countP fun n => n.kind = .functionDefinition := by
  rw [definitions, h.functions, inFamily, List.filter_map, List.length_map, List.filter_filter,
    ← List.countP_eq_length_filter]
  refine List.countP_congr fun n _ => ?_
  have hdefinition : ∀ k : Node.Kind, k = .functionDefinition → k.family? = some .functions := by
    decide
  simpa [Node.functionEntry] using hdefinition n.kind

/-- The complexity of a tree counts its definitions and its branches. -/
theorem Survey.counted_preorder (root : Node) :
    counted root.preorder = (ofNode root).definitions.length + branches [root] := by
  rw [Node.counted_eq, length_definitions (ofNode_lists root), branches, Node.preorderAll,
    Node.preorderAll, List.append_nil]

namespace Grammar

/-! ## Files of declarations -/

/-- No keyword that opens a branch is stepped over. -/
theorem State.branchWords_eq_countP (s : State) :
    s.branchWords = s.rest.countP fun t => t.kind.opensBranch := by
  rw [branchWords, script, words, List.countP_map, List.countP_filter]
  refine List.countP_congr fun t _ => ?_
  obtain ⟨kind, text, location⟩ := t
  cases kind <;> simp [isPassed, Token.Kind.isComment, Token.Kind.opensBranch]

/-- Each item that is read begins with a token that starts a type. -/
def Declares (tokens : List Token) (limit : Nat) : Prop :=
  ∀ p, Progress.Reads (.forTokens (State.ofTokens tokens 0).rest) (.start tokens limit) p →
    p.flush.state.rest ≠ [] → p.flush.state.front.kind.startsType = true

/-- The keywords of the branches that have been read and those that are to come are so many. -/
structure Progress.Tallied (total : Nat) (p : Progress) : Prop where
  within : p.state.Within Anywhere
  bare : p.state.Bare
  sum : branches p.nodes + p.state.branchWords = total

theorem Progress.Tallied.flush {total : Nat} {p : Progress} (h : p.Tallied total) :
    p.flush.Tallied total := by
  obtain ⟨hwithin, hbare, hsum⟩ :=
    Tallies.takeComments (P := Always) h.within h.bare trivial rfl
  refine ⟨hwithin, hbare, ?_⟩
  calc
    branches p.flush.nodes + p.flush.state.branchWords
        = branches p.state.passTrivia.comments + branches p.nodes + p.flush.state.branchWords := by
          simp [Progress.flush]
    _ = branches p.nodes + (branches p.state.passTrivia.comments + p.flush.state.branchWords) := by
          omega
    _ = branches p.nodes + p.state.branchWords := by
          rw [← Nat.zero_add p.state.branchWords]
          exact congrArg _ hsum.symm
    _ = total := h.sum

/-- A declaration adds the keywords that it takes. -/
theorem Progress.Tallied.declaration {total levels : Nat} {p : Progress} {found : List Node}
    {next : State} (h : p.Tallied total) (hstart : p.state.front.kind.startsType = true)
    (hitem : item (.level levels) p.state = .ok found next) :
    Tallied total ⟨found.reverse ++ p.nodes, p.failures, next⟩ := by
  rw [item_of_startsType hstart] at hitem
  obtain ⟨hwithin, hbare, hsum⟩ := Tallies.declaration (P := Always) (Rules.level_tallies levels)
    h.within h.bare trivial hitem
  refine ⟨hwithin, hbare, ?_⟩
  have hsame := h.sum
  simp only [Node.branches_append, Node.branches_reverse]
  omega

theorem Progress.Reads.tallied {total levels : Nat} {p q : Progress}
    (h : Reads (.level levels) p q) (hp : p.Tallied total)
    (hstarts : ∀ q, Reads (.level levels) p q → q.flush.state.rest ≠ [] →
      q.flush.state.front.kind.startsType = true) : q.Tallied total := by
  induction h with
  | refl p => exact hp
  | @item p q found next hgoes hitem _ ih =>
      exact ih (hp.flush.declaration (hstarts p (.refl p) hgoes) hitem)
        fun q hq => hstarts q (.item hgoes hitem hq)

end Grammar

open Grammar

/-- In a file of declarations that is read without a failure, with neither structs nor directive
lines, the complexity is the word for the number of functions that have a body and of the keywords
that open branches. It is this number if a word can count the tokens, as it can in a memory of
64-bit addresses. -/
theorem complexity_eq_keywords {tokens : List Token} {options : ParseSettings}
    (hends : EndsOnce tokens) (hstructs : ∀ t ∈ tokens, t.kind ≠ .keyword .structKw)
    (hdirectives : ∀ t ∈ tokens, t.kind.isDirective = false)
    (hclean : (parse tokens options).isClean = true)
    (hitems : Declares tokens options.maxNesting) :
    let survey := Survey.ofNode (parse tokens options).root
    let count := survey.definitions.length + tokens.countP fun t => t.kind.opensBranch
    survey.complexity = .ofNat count ∧
      (tokens.length < UInt64.size → survey.complexity.toNat = count) := by
  intro survey count
  have hle := counted_parse_le hends options
  obtain ⟨inner, last, rfl, hlast, hinner⟩ := hends
  let start : Progress := .start (inner ++ [last]) options.maxNesting
  have hrest : start.state.rest = inner :=
    congrArg State.rest (State.ofTokens_ends options.maxNesting hlast hinner)
  have hwords : start.state.branchWords =
      (inner ++ [last]).countP fun t => t.kind.opensBranch := by
    rw [State.branchWords_eq_countP, hrest, List.countP_append]
    simp [hlast, Token.Kind.opensBranch]
  have hbare : start.state.Bare := by
    intro w hw
    obtain ⟨t, ht, rfl⟩ := List.mem_map.mp hw
    have hmem : t ∈ inner ++ [last] :=
      List.mem_append_left _ (hrest ▸ (List.mem_filter.mp ht).1)
    exact ⟨hstructs t hmem, hdirectives t hmem⟩
  have htallied : start.Tallied ((inner ++ [last]).countP fun t => t.kind.opensBranch) :=
    ⟨State.ofTokens_anywhere _ _, hbare, by rw [hwords]; exact Nat.zero_add _⟩
  obtain ⟨p, hreads, hend, hparse⟩ := exists_reads_of_isClean hclean
  have hnone : p.flush.state.branchWords = 0 := by
    rw [State.branchWords_eq_countP, hend]
    rfl
  have hsum := (hreads.tallied htallied hitems).flush.sum
  rw [hnone, Nat.add_zero] at hsum
  have hroot : branches [(parse (inner ++ [last]) options).root] = branches p.flush.nodes := by
    rw [hparse]
    simp [Ending.parsed, Node.Kind.isBranch]
  have hcount : counted (parse (inner ++ [last]) options).root.preorder = count := by
    rw [Survey.counted_preorder, hroot, hsum]
  rw [← hcount]
  exact ⟨Survey.complexity_ofNode _,
    fun hsize => Survey.toNat_complexity_ofNode (Nat.lt_of_le_of_lt hle hsize)⟩

/-- A loop that tests last has another loop as its body, and each of them a keyword. -/
theorem complexity_eq_keywords_loops :
    let tokens : List Token := [⟨.keyword .voidKw, "void", ⟨1, 1⟩⟩, ⟨.identifier, "f", ⟨1, 6⟩⟩,
      ⟨.delimiter .leftParen, "(", ⟨1, 7⟩⟩, ⟨.delimiter .rightParen, ")", ⟨1, 8⟩⟩,
      ⟨.delimiter .leftBrace, "\x7b", ⟨1, 9⟩⟩, ⟨.keyword .doKw, "do", ⟨1, 10⟩⟩,
      ⟨.keyword .whileKw, "while", ⟨1, 13⟩⟩, ⟨.delimiter .leftParen, "(", ⟨1, 18⟩⟩,
      ⟨.identifier, "a", ⟨1, 19⟩⟩, ⟨.delimiter .rightParen, ")", ⟨1, 20⟩⟩,
      ⟨.delimiter .semicolon, ";", ⟨1, 21⟩⟩, ⟨.keyword .whileKw, "while", ⟨1, 23⟩⟩,
      ⟨.delimiter .leftParen, "(", ⟨1, 28⟩⟩, ⟨.identifier, "b", ⟨1, 29⟩⟩,
      ⟨.delimiter .rightParen, ")", ⟨1, 30⟩⟩, ⟨.delimiter .semicolon, ";", ⟨1, 31⟩⟩,
      ⟨.delimiter .rightBrace, "\x7d", ⟨1, 32⟩⟩, .endOfInput ⟨1, 33⟩]
    EndsOnce tokens ∧ (∀ t ∈ tokens, t.kind ≠ .keyword .structKw) ∧
      (∀ t ∈ tokens, t.kind.isDirective = false) ∧ (parse tokens {}).isClean = true ∧
      Declares tokens 48 ∧ (Survey.ofNode (parse tokens {}).root).complexity.toNat =
        (Survey.ofNode (parse tokens {}).root).definitions.length + 2 := by
  intro tokens
  have hends : EndsOnce tokens := ⟨tokens.dropLast, .endOfInput ⟨1, 33⟩, rfl, rfl, by decide⟩
  have hstructs : ∀ t ∈ tokens, t.kind ≠ .keyword .structKw := by decide
  have hdirectives : ∀ t ∈ tokens, t.kind.isDirective = false := by decide
  have hclean : (parse tokens {}).isClean = true := by decide +kernel
  obtain ⟨nodes, stop, hone, hrest⟩ : ∃ nodes stop,
      item (.forTokens (State.ofTokens tokens 0).rest) (Progress.start tokens 48).flush.state =
        .ok nodes stop ∧ stop.rest = [] := exists_ok_and (by decide +kernel)
  have hitems : Declares tokens 48 := by
    intro p hreads hgoes
    cases hreads with
    | refl => decide
    | @item _ _ found next _ hitem hreads =>
        obtain ⟨rfl, rfl⟩ := EStateM.Result.ok.inj (hone.symm.trans hitem)
        have hend : ∀ q : Progress, q.state = stop → q.flush.state.rest = [] := by
          rintro q rfl
          show q.state.upcoming = []
          rw [State.upcoming, hrest]
          rfl
        cases hreads with
        | refl => exact absurd (hend _ rfl) hgoes
        | item hgoes' => exact absurd (hend _ rfl) hgoes'
  exact ⟨hends, hstructs, hdirectives, hclean, hitems,
    (complexity_eq_keywords hends hstructs hdirectives hclean hitems).2 (by decide)⟩

end CSurvey
