import CSurvey.Proofs.Grammar.DirectiveLine
import CSurvey.Proofs.Grammar.Recovery
import CSurvey.Proofs.Survey.Joining
import CSurvey.Proofs.Token.HeaderName

/-! # Included headers

The texts of the tokens between the angle brackets are put together again, so an inclusion names the
header as the source does, and leaves the lines below to be read on their own. -/

namespace CSurvey

namespace Grammar

variable {s : State} {parts : List Token} {marker less greater : Token} {name : String}

/-! ## The name between the brackets -/

/-- One round of the reading of a header name. -/
def headerRound (name : String) : Parse (Turn String) := do
  match ← frontKind with
  | .operator .greater => pure (.done name)
  | .newline | .endOfInput => failFound .openInclusion
  | _ =>
    let token ← takeFront
    pure (.again (name ++ token.text))

theorem headerRound_part {t : Token} {after : List Token} (hrest : s.rest = t :: after)
    (ht : t.kind.isHeaderPart = true) (name : String) :
    headerRound name s = .ok (.again (name ++ t.text)) { s with rest := after } := by
  obtain ⟨hcomment, hnewline, hend, hgreater⟩ := Token.Kind.isHeaderPart_counts ht
  have hcounts : s.isPassed t = false := by simp [State.isPassed, hcomment, hnewline]
  rw [headerRound, bind_apply, frontKind_apply, State.front_of_counts hrest hcounts]
  generalize t.kind = kind at hnewline hend hgreater
  dsimp only
  split
  · contradiction
  · contradiction
  · contradiction
  · rw [bind_apply, takeFront_of_counts hrest hcounts]
    rfl

theorem headerRound_bracket {after : List Token} (hrest : s.rest = greater :: after)
    (hgreater : greater.kind = .operator .greater) (name : String) :
    headerRound name s = .ok (.done name) s := by
  have hcounts : s.isPassed greater = false := by
    simp [State.isPassed, hgreater, Token.Kind.isComment]
  rw [headerRound, bind_apply, frontKind_apply, State.front_of_counts hrest hcounts, hgreater]
  rfl

/-- Each round puts the text of a part behind the texts before it. -/
theorem turns_headerRound {after : List Token} (hrest : s.rest = parts ++ greater :: after)
    (hparts : ∀ t ∈ parts, t.kind.isHeaderPart = true)
    (hgreater : greater.kind = .operator .greater) (before : String) :
    Turns headerRound before s (before ++ String.join (parts.map Token.text))
      { s with rest := greater :: after } := by
  induction parts generalizing s before with
  | nil =>
      have hsame : { s with rest := greater :: after } = s := by
        rw [← List.nil_append (_ :: _), ← hrest]
      rw [hsame, List.map_nil, String.join_nil, String.append_empty]
      exact .done (headerRound_bracket hrest hgreater before)
  | cons t parts ih =>
      obtain ⟨ht, hparts⟩ := List.forall_mem_cons.mp hparts
      rw [List.map_cons, String.join_cons, ← String.append_assoc]
      refine .again (headerRound_part hrest ht before) ?_ (ih rfl hparts _)
      rw [hrest]
      exact Nat.lt_succ_self _

theorem headerName_parts {after : List Token} (hrest : s.rest = parts ++ greater :: after)
    (hparts : ∀ t ∈ parts, t.kind.isHeaderPart = true)
    (hgreater : greater.kind = .operator .greater)
    (hname : String.join (parts.map Token.text) = name) (hne : name ≠ "") :
    headerName s = .ok ("<" ++ name ++ ">") { s with rest := after } := by
  have hloop : loop headerRound "" s = .ok name { s with rest := greater :: after } := by
    have hturns := turns_headerRound hrest hparts hgreater ""
    rw [String.empty_append, hname] at hturns
    exact hturns.loop_eq
  have hcounts : ({ s with rest := greater :: after } : State).isPassed greater = false := by
    simp [State.isPassed, hgreater, Token.Kind.isComment]
  have hnonempty : ¬name.isEmpty = true := by rwa [String.isEmpty_iff]
  have hread : headerName s = (loop headerRound "" >>= fun name =>
      if name.isEmpty then fail .emptyHeader
      else takeFront >>= fun _ => pure ("<" ++ name ++ ">")) s := rfl
  rw [hread, bind_apply, hloop]
  dsimp only
  rw [if_neg hnonempty, bind_apply, takeFront_of_counts rfl hcounts]
  rfl

/-! ## The line -/

theorem lineTexts_end (hrest : s.rest = []) : lineTexts s = .ok [] s := by
  have hfront : s.front.kind = .endOfInput := by
    simp [State.front, State.upcoming, hrest, Token.endOfInput]
  rw [lineTexts, bind_apply, loop_done (b := []) (t := s)]
  · rfl
  · rw [bind_apply, frontKind_apply, hfront]
    rfl

theorem inclusion_parts
    (hrest : s.rest = marker :: less :: (parts ++ [greater]))
    (hmarker : marker.kind = .directive .inclusion) (hless : less.kind = .operator .less)
    (hparts : ∀ t ∈ parts, t.kind.isHeaderPart = true)
    (hgreater : greater.kind = .operator .greater)
    (hname : String.join (parts.map Token.text) = name) (hne : name ≠ "") :
    inclusion s = .ok (.texted .inclusion ("<" ++ name ++ ">") marker.location [])
      { s with rest := [] } := by
  let line : State := { s with rest := less :: (parts ++ [greater]), onLine := true }
  have hcounts : line.isPassed less = false := by
    simp [State.isPassed, hless, Token.Kind.isComment]
  have htake : takeFront s = .ok marker { s with rest := less :: (parts ++ [greater]) } :=
    takeFront_marker hrest (by rw [hmarker]; rfl)
  have hkind : line.front.kind = .operator .less := by
    rw [State.front_of_counts rfl hcounts, hless]
  have htarget : inclusionTarget line = .ok ("<" ++ name ++ ">") { line with rest := [] } := by
    rw [inclusionTarget, bind_apply, frontKind_apply, hkind]
    dsimp only
    rw [bind_apply, takeFront_of_counts rfl hcounts]
    exact headerName_parts rfl hparts hgreater hname hne
  have hline : onDirectiveLine (inclusionTarget >>= fun target =>
      lineTexts >>= fun _ => pure target) { s with rest := less :: (parts ++ [greater]) } =
        .ok ("<" ++ name ++ ">") { s with rest := [] } :=
    onDirectiveLine_eq_ok.mpr ⟨{ line with rest := [] },
      bind_eq_ok.mpr ⟨_, _, htarget, bind_eq_ok.mpr ⟨_, _, lineTexts_end rfl, rfl⟩⟩, rfl⟩
  exact bind_eq_ok.mpr ⟨_, _, htake, bind_eq_ok.mpr ⟨_, _, hline, rfl⟩⟩

/-- A file of one such line has the inclusion for its only node. -/
theorem parse_inclusion {last : Position} {options : ParseSettings}
    (hmarker : marker.kind = .directive .inclusion) (hless : less.kind = .operator .less)
    (hparts : ∀ t ∈ parts, t.kind.isHeaderPart = true)
    (hgreater : greater.kind = .operator .greater)
    (hname : String.join (parts.map Token.text) = name) (hne : name ≠ "") :
    parse (marker :: less :: (parts ++ [greater, .endOfInput last])) options =
      ⟨.plain .program .start
        [.texted .inclusion ("<" ++ name ++ ">") marker.location []], [], []⟩ := by
  let inner := marker :: less :: (parts ++ [greater])
  let start := Progress.ofFile inner last options.maxNesting
  have hdirective : marker.kind.isDirective = true := by rw [hmarker]; rfl
  have hinner : ∀ t ∈ inner, t.kind ≠ .endOfInput := by
    have hbefore : ∀ t ∈ parts, t.kind ≠ .endOfInput :=
      fun t ht => (Token.Kind.isHeaderPart_counts (hparts t ht)).2.2.1
    simpa [inner, hmarker, hless, hgreater, or_imp, forall_and] using hbefore
  have htokens : marker :: less :: (parts ++ [greater, .endOfInput last]) =
      inner ++ [.endOfInput last] := by simp [inner]
  have hflush : start.flush = start := by
    simp [Progress.flush, State.passTrivia, start, Progress.ofFile, inner, State.upcoming,
      State.isPassed_marker _ hdirective]
  have hitem : item (.level (inner.length + 1)) start.flush.state =
      .ok [.texted .inclusion ("<" ++ name ++ ">") marker.location []]
        { start.state with rest := [] } := by
    rw [hflush, item, bind_apply, frontKind_apply, State.front_marker rfl hdirective, hmarker]
    dsimp only
    rw [if_pos rfl]
    exact bind_eq_ok.mpr ⟨_, _, inclusion_parts rfl hmarker hless hparts hgreater hname hne, rfl⟩
  have hopen : start.flush.state.rest ≠ [] := by
    rw [hflush]
    exact List.cons_ne_nil _ _
  have hread : readOn (.level (inner.length + 1)) options.recover start =
      .complete ⟨[.texted .inclusion ("<" ++ name ++ ">") marker.location []], [],
        { start.state with rest := [] }⟩ := by
    rw [readOn_ok (Rules.level_composed _) hopen hitem, readOn_end rfl, hflush]
    rfl
  rw [htokens]
  exact (parse_eq_readOn rfl hinner (Nat.lt_succ_self _)).trans (congrArg Ending.parsed hread)

/-! ## Diagnostics -/

theorem length_errorTexts_movedTo {f : Position → Position} {ns ms : List Node}
    (h : List.Forall₂ (MovedTo f) ns ms) : (errorTexts ms).length = (errorTexts ns).length := by
  induction h with
  | nil => rfl
  | @cons n m ns ms hn _ ih =>
      simp only [errorTexts, List.length_map] at ih ⊢
      cases hn with
      | part hn =>
          rw [List.filter_cons_of_neg (by simpa using hn),
            List.filter_cons_of_neg (by simpa using hn), ih]
      | error e => simpa [errorNode, Node.texted] using ih

/-- With recovery each diagnostic has its error among the nodes of the file. -/
theorem length_errorTexts_children {tokens : List Token} {source : String}
    {options : ParseSettings} (h : tokenize source = .ok tokens)
    (hrecover : options.recover = true) :
    (errorTexts (parse tokens options).root.children).length =
      (parse tokens options).diagnostics.length := by
  obtain ⟨inner, rfl, hinner⟩ := (tiles_of_tokenize h).ending
  have hends : ∀ t ∈ inner, t.kind ≠ .endOfInput := fun t ht => (hinner t ht).kind_ne
  have hlast : (Token.endOfInput (.behind ([] ++ source.toList))).kind = .endOfInput := rfl
  obtain ⟨p, -, hsteps, hparse⟩ :=
    parse_closed hlast hends hrecover (Nat.lt_succ_self inner.length)
  rw [hparse]
  show (errorTexts p.nodes.reverse).length = _
  rw [errorTexts_of_inStep hsteps, List.length_map]

end Grammar

open Grammar

/-- An included header keeps its name, however the lexer cuts it: before any source that can be read
into tokens, a line that includes a header adds the header to the front of the survey, in its angle
brackets and letter for letter, and no diagnostic. A header name is not empty, opens no line comment
and does not end in a hyphen, which would make an arrow of the closing bracket. -/
theorem inclusion_of_header {name rest : String} {us : List Token} {options : ParseSettings}
    (hname : Token.IsHeaderText name.toList) (hne : name ≠ "") (hrest : tokenize rest = .ok us)
    (hrecover : options.recover = true) :
    ∃ whole, tokenize ("#include <" ++ name ++ ">" ++ "\n" ++ rest) = .ok whole ∧
      (Survey.ofNode (parse whole options).root).inclusions.head? = some ("<" ++ name ++ ">") ∧
      Survey.ofNode (parse whole options).root =
        ({ inclusions := ["<" ++ name ++ ">"] } : Survey).joined
          (Survey.ofNode (parse us options).root) ∧
      (parse whole options).diagnostics.length = (parse us options).diagnostics.length := by
  obtain ⟨less, parts, greater, last, hline, hparts, htexts⟩ := tokenize_header hname
  have hparse : parse (⟨.directive .inclusion, "#include", .start⟩ ::
      ⟨.operator .less, "<", less⟩ ::
        (parts ++ [⟨.operator .greater, ">", greater⟩, .endOfInput last])) options = _ :=
    parse_inclusion rfl rfl hparts rfl htexts hne
  obtain ⟨whole, lower, hwhole, hroot, hlower⟩ :=
    exists_lower hline hrest hrecover (by rw [hparse]; rfl)
  have hsurvey := ofNode_of_lower hrecover hroot hlower
  rw [hparse] at hroot hsurvey
  refine ⟨whole, hwhole, by rw [hsurvey]; rfl, hsurvey, ?_⟩
  calc (parse whole options).diagnostics.length
      = (errorTexts (parse whole options).root.children).length :=
        (length_errorTexts_children hwhole hrecover).symm
    _ = (errorTexts lower).length := by
        rw [hroot]
        rfl
    _ = (errorTexts (parse us options).root.children).length := length_errorTexts_movedTo hlower
    _ = (parse us options).diagnostics.length := length_errorTexts_children hrest hrecover

/-- A name of numbers, words and signs, above a line that cannot be read. -/
theorem inclusion_of_header_failure :
    let name := "2c++/--if_x.5h"
    let below : List Token := [⟨.keyword .intKw, "int", ⟨1, 1⟩⟩,
      ⟨.operator .assign, "=", ⟨1, 5⟩⟩, ⟨.delimiter .semicolon, ";", ⟨1, 6⟩⟩, .endOfInput ⟨1, 7⟩]
    Token.IsHeaderText name.toList ∧ name ≠ "" ∧ tokenize "int =;" = .ok below ∧
      (parse below {}).diagnostics.length = 1 ∧
      ∃ whole, tokenize ("#include <" ++ name ++ ">" ++ "\n" ++ "int =;") = .ok whole ∧
        (Survey.ofNode (parse whole {}).root).inclusions.head? = some ("<" ++ name ++ ">") ∧
        (parse whole {}).diagnostics.length = 1 := by
  intro name below
  have hname : Token.IsHeaderText name.toList :=
    ⟨List.all_iff_forall_prop.mp (by decide), by simp [name, List.infix_cons_iff], by decide⟩
  have hne : name ≠ "" := by decide
  have hbelow : tokenize "int =;" = .ok below := rfl
  have hone : (parse below {}).diagnostics.length = 1 := by decide +kernel
  have hrecover : ({} : ParseSettings).recover = true := rfl
  obtain ⟨whole, hwhole, hfirst, -, hlength⟩ := inclusion_of_header hname hne hbelow hrecover
  exact ⟨hname, hne, hbelow, hone, whole, hwhole, hfirst, hlength.trans hone⟩

end CSurvey
