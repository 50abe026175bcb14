import CSurvey.Proofs.Grammar.FailedLine
import CSurvey.Proofs.Grammar.NestingTexts

/-! # The limit on nesting

Of parentheses, operators, calls, signs, blocks and choices exactly so many may stand inside or
behind each other as the limit on nesting has room for. Where there is one too many the declaration
fails with the one diagnostic that names the limit, and the declaration behind it is read. -/

namespace CSurvey

/-! ## Behind a failed item -/

/-- Whether a kind neither ends an item nor opens or closes a brace. -/
def Token.Kind.isInner : Token.Kind → Bool
  | .delimiter .leftBrace | .delimiter .rightBrace | .delimiter .semicolon | .directive _ => false
  | _ => true

/-- The words that are passed over to the end of an item, with so many braces open before them. -/
inductive TailWords : Nat → List Word → Prop where
  | semicolon {w : Word} (hw : w.1 = .delimiter .semicolon) : TailWords 0 [w]
  | close {w : Word} (hw : w.1 = .delimiter .rightBrace) : TailWords 1 [w]
  | inner {w : Word} {ws : List Word} {braces : Nat} (hw : w.1.isInner = true) :
      TailWords braces ws → TailWords braces (w :: ws)
  | opens {w : Word} {ws : List Word} {braces : Nat} (hw : w.1 = .delimiter .leftBrace) :
      TailWords (braces + 1) ws → TailWords braces (w :: ws)
  | closes {w : Word} {ws : List Word} {braces : Nat} (hw : w.1 = .delimiter .rightBrace) :
      TailWords (braces + 1) ws → TailWords (braces + 2) (w :: ws)

namespace TailWords

variable {ws : List Word} {braces : Nat}

theorem inners (hws : ∀ w ∈ ws, w.1.isInner = true) {more : List Word}
    (h : TailWords braces more) : TailWords braces (ws ++ more) := by
  induction ws with
  | nil => exact h
  | cons w ws ih =>
      obtain ⟨hw, hws⟩ := List.forall_mem_cons.mp hws
      exact .inner hw (ih hws)

/-- A nest closes what it opens. -/
theorem nest {opener more : List Word}
    (hopener : ∀ {braces : Nat} {us : List Word}, TailWords (braces + 1) us →
      TailWords braces (opener ++ us))
    (n : Nat) (h : TailWords (braces + 1) more) :
    TailWords (braces + 1) (nestWords opener n ++ more) := by
  induction n generalizing braces more with
  | zero => exact h
  | succ n ih =>
      rw [nestWords_succ, List.append_assoc, List.append_assoc]
      exact hopener (ih (.closes rfl h))

theorem blockOpener (h : TailWords (braces + 1) ws) :
    TailWords braces (blockOpener ++ ws) :=
  .opens rfl h

theorem choiceOpener (x : Identifier) (h : TailWords (braces + 1) ws) :
    TailWords braces (choiceOpener x ++ ws) :=
  .inner rfl (.inner rfl (.inner rfl (.inner rfl (.opens rfl h))))

end TailWords

namespace Grammar

open Costs

variable {ws rest : List Word} {t : Token} {ts : List Token} {braces : Nat}

theorem endsItem_of_isInner (braces : Nat) (h : t.kind.isInner = true) :
    endsItem braces t = false ∧ openBraces braces [t] = braces := by
  obtain ⟨kind, text, location⟩ := t
  cases kind with
  | delimiter mark => cases mark <;> simp_all [endsItem, openBraces, Token.Kind.isInner]
  | directive _ => contradiction
  | _ => simp [endsItem, openBraces]

/-- What is no word is passed over like any word inside an item. -/
theorem isInner_of_not_isWord (h : t.isWord = false) : t.kind.isInner = true := by
  obtain ⟨kind, text, location⟩ := t
  cases kind <;> first | rfl | simp_all [Token.isWord, Token.Kind.isComment]

/-- The search for the end of an item passes over the words of its tail. -/
theorem wordsOf_behindItem (h : TailWords braces ws) (hts : wordsOf ts = ws ++ rest) :
    wordsOf (behindItem false false braces ts).2 = rest := by
  -- On the tokens and not on the words: comments and newlines stand between the words.
  induction ts generalizing braces ws with
  | nil => cases h <;> simp [wordsOf] at hts
  | cons t ts ih =>
      cases hword : t.isWord with
      | false =>
          rw [wordsOf_cons, if_neg (by simp [hword])] at hts
          obtain ⟨hend, hbraces⟩ := endsItem_of_isInner braces (isInner_of_not_isWord hword)
          rw [behindItem_goesOn (fun _ => rfl) hend, hbraces]
          exact ih h hts
      | true =>
          rw [wordsOf_cons, if_pos hword] at hts
          have hkind : ∀ {w : Word} {kind : Token.Kind}, t.word = w → w.1 = kind →
              t.kind = kind := by
            rintro w kind rfl rfl
            rfl
          cases h with
          | semicolon hw =>
              obtain ⟨hhead, hrest⟩ := List.cons.inj hts
              have hk := hkind hhead hw
              rw [behindItem_ends (by simp [endsItem, hk]), hk]
              exact hrest
          | close hw =>
              obtain ⟨hhead, hrest⟩ := List.cons.inj hts
              have hk := hkind hhead hw
              rw [behindItem_ends (by simp [endsItem, hk]), hk]
              exact hrest
          | inner hw h =>
              obtain ⟨rfl, hrest⟩ := List.cons.inj hts
              obtain ⟨hend, hbraces⟩ := endsItem_of_isInner (t := t) _ hw
              rw [behindItem_goesOn (fun _ => rfl) hend, hbraces]
              exact ih h hrest
          | opens hw h =>
              obtain ⟨hhead, hrest⟩ := List.cons.inj hts
              have hk := hkind hhead hw
              rw [behindItem_goesOn (fun _ => rfl) (by simp [endsItem, hk])]
              have hbraces : openBraces braces [t] = braces + 1 := by simp [openBraces, hk]
              rw [hbraces]
              exact ih h hrest
          | closes hw h =>
              obtain ⟨hhead, hrest⟩ := List.cons.inj hts
              have hk := hkind hhead hw
              rw [behindItem_goesOn (fun _ => rfl) (by simp [endsItem, hk])]
              have hbraces : ∀ braces, openBraces (braces + 2) [t] = braces + 1 := by
                simp [openBraces, hk]
              rw [hbraces]
              exact ih h hrest

theorem State.script_eq_wordsOf {s : State} (h : s.onLine = false) : s.script = wordsOf s.rest := by
  rw [script, words, wordsOf]
  congr 1
  refine List.filter_congr fun t _ => ?_
  simp [isPassed, Token.isWord, h]

/-- Behind a failed item that starts with a type the words behind its tail are read. -/
theorem State.script_resume {failed s : State} {w : Word} {more : List Word}
    (hsettled : s.Settled) (hs : s.script = w :: (more ++ rest)) (hline : s.onLine = false)
    (hw : w.1.startsType = true) (hmore : TailWords 0 more) :
    (failed.resume s.rest).script = rest := by
  obtain ⟨t, words, hwords, rfl, -⟩ := State.words_of_script hs
  obtain ⟨ts, hup, -⟩ := State.upcoming_eq_cons hwords
  have hstart : s.rest = t :: ts := hsettled.symm.trans hup
  have hall := State.script_eq_wordsOf hline
  rw [hs, hstart] at hall
  obtain ⟨kind, text, location⟩ := t
  cases kind with
  | keyword word =>
      -- A keyword is passed over first, whatever the item is.
      have hpassed : (failed.resume (⟨.keyword word, text, location⟩ :: ts)).rest =
          (behindItem false false 0 ts).2 := rfl
      have htokens : more ++ rest = wordsOf ts := (List.cons.inj hall).2
      rw [State.script_eq_wordsOf rfl, hstart, hpassed]
      exact wordsOf_behindItem hmore htokens.symm
  | _ => contradiction

/-! ## Files of two declarations -/

/-- The tree of the declaration that stands last, without places. -/
def lastNode : Node :=
  .texted .variableDeclaration "int" .start [.texted .variableDeclarator "y" .start []]

/-- The last declaration is read to the end of the file. -/
theorem readOn_last (levels : Nat) {p : Progress} (hscript : p.state.script = lastWords)
    (hroom : p.state.depth ≤ p.state.limit) :
    ∃ q, readOn (.level (levels + 1)) true p = .complete q ∧ q.failures = p.failures ∧
      lastNode ∈ q.nodes.map Node.unplaced := by
  have hr : (Rules.level (levels + 1)).Composed := Rules.level_composed _
  have hflush : p.flush.state.script = lastWords := p.state.script_takeComments.trans hscript
  have hgoes : p.flush.state.rest ≠ [] := State.rest_ne_nil_of_script hflush
  have htype : NamesSpecifier (· = []) "int" [(.keyword .intKw, "int")] := by
    have hbase : NamesBase (· = []) ["int"] [(.keyword .intKw, "int")] :=
      .base (w := (.keyword .intKw, "int")) rfl
    have hnone : ∀ w ∈ ([] : List Word), w.1.isTypeModifier = true := by simp
    exact .intro hnone hbase (by simp)
  have hname : Prod.fst ((.identifier, "y") : Word) = .identifier := rfl
  have hvariable : VariablesWords (ExpressionWithin 0) [⟨0, "y", [], none⟩] [(.identifier, "y")] :=
    .last (.plain .none hname .none)
  obtain ⟨nodes, v, hnodes, htrees, hpast⟩ := declaration_of_variables (m := levels) htype hvariable
    (c := delimiterWord .semicolon) rfl hflush (Nat.zero_le _) hroom
  have hitem : item (.level (levels + 1)) p.flush.state = .ok nodes v := by
    rw [item_of_startsType (by rw [front_kind_of_script hflush]; rfl), hnodes]
  let q : Progress := ⟨nodes.reverse ++ p.flush.nodes, p.failures, v⟩
  have hend : q.flush.state.rest = [] := State.upcoming_eq_nil (List.map_eq_nil_iff.mp hpast.script)
  refine ⟨q.flush, (readOn_ok hr hgoes hitem).trans (readOn_end hend), rfl, ?_⟩
  have hnode : lastNode ∈ nodes.map Node.unplaced := by
    rw [htrees]
    exact List.mem_singleton.mpr rfl
  obtain ⟨node, hmem, hnode⟩ := List.mem_map.mp hnode
  refine List.mem_map.mpr ⟨node, ?_, hnode⟩
  exact List.mem_append_right _ (List.mem_append_left _ (List.mem_reverse.mpr hmem))

/-- The costs of the first item decide how the reading goes: where it does not fit, the rest of it
is passed over, and either way the last declaration is read. -/
theorem readOn_of_costs {tokens : List Token} {w : Word} {more : List Word} {need levels : Nat}
    (limit : Nat) (hscript : (State.ofTokens tokens limit).script = w :: (more ++ lastWords))
    (hw : w.1.startsType = true) (hmore : TailWords 0 more)
    (hcosts : Costs (item (.level (levels + 1))) (w :: (more ++ lastWords)) lastWords need 0
      Always) :
    ∃ q, readOn (.level (levels + 1)) true (.start tokens limit) = .complete q ∧
      lastNode ∈ q.nodes.map Node.unplaced ∧ (need ≤ limit → q.failures = []) ∧
        (¬need ≤ limit → ∃ place, q.failures = [⟨.tooDeep limit, place⟩]) := by
  let p : Progress := .start tokens limit
  have hr : (Rules.level (levels + 1)).Composed := Rules.level_composed _
  have hflush : p.flush.state.script = w :: (more ++ lastWords) :=
    p.state.script_takeComments.trans hscript
  have hgoes : p.flush.state.rest ≠ [] := State.rest_ne_nil_of_script hflush
  have hdepth : p.flush.state.depth = 0 := rfl
  have hlimit : p.flush.state.limit = limit := rfl
  obtain ⟨hok, hdeep⟩ := hcosts hflush (Nat.zero_le limit)
  by_cases hfits : need ≤ limit
  · obtain ⟨found, v, hitem, -, hv⟩ := hok (by omega)
    obtain ⟨q, hq, hfailures, hlast⟩ :=
      readOn_last levels (p := ⟨found.reverse ++ p.flush.nodes, p.failures, v⟩) hv.script hv.room
    exact ⟨q, (readOn_ok hr hgoes hitem).trans hq, hlast, fun _ => hfailures,
      fun hnot => absurd hfits hnot⟩
  · obtain ⟨place, failed, hfailed⟩ := hdeep (by omega)
    let failure : Failure := ⟨.tooDeep limit, place⟩
    have hitem : item (.level (levels + 1)) p.flush.state = .error failure failed := hfailed
    have hresumed : (failed.resume p.flush.state.rest).script = lastWords :=
      State.script_resume p.settled_flush hflush rfl hw hmore
    obtain ⟨q, hq, hfailures, hlast⟩ :=
      readOn_last levels (p := ⟨errorNode failure :: p.flush.nodes, failure :: p.failures,
        failed.resume p.flush.state.rest⟩) hresumed (Nat.zero_le _)
    exact ⟨q, (readOn_recovered hr hgoes hitem).trans hq, hlast, fun h => absurd h hfits,
      fun _ => ⟨place, hfailures⟩⟩

/-- The text is parsed without a diagnostic if and only if there is room for what it nests, else
with the one that names the limit; and either way the last declaration is read. -/
def ParsesWhen (source : String) (limit : Nat) (fits : Prop) : Prop :=
  ∃ tokens, tokenize source = .ok tokens ∧
    let parsed := parse tokens ⟨limit, true⟩
    (parsed.isClean = true ↔ fits) ∧
      (¬fits → ∃ place, parsed.diagnostics = [Failure.message ⟨.tooDeep limit, place⟩]) ∧
      lastNode ∈ parsed.root.children.map Node.unplaced

/-- What the first item costs decides. -/
theorem parsesWhen_of_costs {source : String} {w : Word} {more : List Word} {need limit : Nat}
    (hspells : Spells source.toList (w :: (more ++ lastWords))) (hw : w.1.startsType = true)
    (hmore : TailWords 0 more)
    (hcosts : ∀ L, more.length ≤ L →
      Costs (item (.level L)) (w :: (more ++ lastWords)) lastWords need 0 Always) :
    ParsesWhen source limit (need ≤ limit) := by
  obtain ⟨tokens, htokens, hscript⟩ := tokenize_of_spells hspells
  let levels := 2 * (State.ofTokens tokens 0).rest.length + 1
  have hlength : more.length ≤ levels + 1 := by
    have hwords := (State.ofTokens tokens 0).length_script_le
    rw [hscript, List.length_cons, List.length_append] at hwords
    omega
  obtain ⟨q, hq, hlast, hfits, hdeep⟩ :=
    readOn_of_costs limit (hscript limit) hw hmore (hcosts (levels + 1) hlength)
  have hparse : parse tokens ⟨limit, true⟩ = (Ending.complete q).parsed :=
    (parse_eq_readOn_start tokens ⟨limit, true⟩).trans (congrArg Ending.parsed hq)
  have hchildren : lastNode ∈ (Ending.complete q).parsed.root.children.map Node.unplaced := by
    show lastNode ∈ q.nodes.reverse.map Node.unplaced
    rwa [List.map_reverse, List.mem_reverse]
  refine ⟨tokens, htokens, ?_⟩
  rw [hparse]
  refine ⟨⟨fun hclean => ?_, fun h => ?_⟩, fun h => ?_, hchildren⟩
  · by_contra hnot
    obtain ⟨place, hfailures⟩ := hdeep hnot
    simp [Ending.parsed, Parsed.isClean, hfailures] at hclean
  · simp [Ending.parsed, Parsed.isClean, hfits h]
  · obtain ⟨place, hfailures⟩ := hdeep h
    exact ⟨place, by simp [Ending.parsed, hfailures]⟩

/-- What the value costs decides. -/
theorem parsesWhen_of_value {value : String} {need limit : Nat} (hvalue : SpellsValue value ws)
    (hinner : ∀ w ∈ ws, w.1.isInner = true)
    (hcosts : ∀ L, ws.length ≤ L → Costs (expression (.level L))
      (ws ++ delimiterWord .semicolon :: lastWords) (delimiterWord .semicolon :: lastWords) need 0
      Always) :
    ParsesWhen (valueSource value) limit (need ≤ limit) := by
  have hspells := valueSource_spells hvalue
  let tail := (.identifier, "x") :: operatorWord .assign :: (ws ++ [delimiterWord .semicolon])
  have hmore : TailWords 0 tail := .inner rfl (.inner rfl (.inners hinner (.semicolon rfl)))
  have hwords : tail ++ lastWords = (.identifier, "x") :: operatorWord .assign ::
      (ws ++ delimiterWord .semicolon :: lastWords) := by
    simp [tail]
  rw [← hwords] at hspells
  refine parsesWhen_of_costs hspells rfl hmore fun L hL => item_of_declaration rfl ?_
  simp only [tail, List.length_cons, List.length_append] at hL
  obtain ⟨L, rfl⟩ := Nat.exists_eq_add_one_of_ne_zero (show L ≠ 0 by omega)
  have hvalue := hcosts L (by omega)
  rw [hwords]
  cases ws with
  | nil => exact declaration_initialized rfl rfl rfl (by simp [delimiterWord]) rfl hvalue
  | cons e es =>
      have hbrace : e.1 ≠ .delimiter .leftBrace := by
        intro heq
        have he := hinner e (List.mem_cons_self ..)
        rw [heq] at he
        contradiction
      exact declaration_initialized rfl rfl rfl hbrace rfl hvalue

/-- What the body costs decides. -/
theorem parsesWhen_of_body {body : String} {need limit : Nat} (hbody : SpellsAhead body ws)
    (htail : TailWords 1 (ws ++ [delimiterWord .rightBrace]))
    (hcosts : ∀ L, ws.length ≤ L → Costs (block (.level L))
      (delimiterWord .leftBrace :: (ws ++ delimiterWord .rightBrace :: lastWords)) lastWords need 0
      Always) :
    ParsesWhen (bodySource body) limit (need ≤ limit) := by
  have hspells := bodySource_spells hbody
  let tail := (.identifier, "f") :: delimiterWord .leftParen :: delimiterWord .rightParen ::
    delimiterWord .leftBrace :: (ws ++ [delimiterWord .rightBrace])
  have hmore : TailWords 0 tail := .inner rfl (.inner rfl (.inner rfl (.opens rfl htail)))
  have hwords : tail ++ lastWords = (.identifier, "f") :: delimiterWord .leftParen ::
      delimiterWord .rightParen :: delimiterWord .leftBrace ::
        (ws ++ delimiterWord .rightBrace :: lastWords) := by
    simp [tail]
  rw [← hwords] at hspells
  refine parsesWhen_of_costs hspells rfl hmore fun L hL => item_of_declaration rfl ?_
  simp only [tail, List.length_cons, List.length_append] at hL
  rw [hwords]
  exact declaration_function rfl rfl rfl rfl rfl (hcosts L (by omega))

/-! ## The six families -/

section Families

variable (limit n : Nat)

theorem goesOn_semicolon (ws : List Word) :
    Tier.expression.goesOn (headKind (delimiterWord .semicolon :: ws)) = false :=
  goesOn_expression_of_delimiter (by simp)

theorem parsesWhen_parens :
    ParsesWhen (valueSource (repeated n "(" ++ ("1" ++ repeated n ")"))) limit (n < limit) := by
  refine parsesWhen_of_value (.parens n) ?_ fun L hL => ?_
  · simp only [List.mem_append, List.mem_cons, List.mem_replicate]
    rintro w (⟨-, rfl⟩ | rfl | ⟨-, rfl⟩) <;> rfl
  · obtain ⟨x, hx⟩ := Option.isSome_iff_exists.mp (by decide : (Numeral.read "1").isSome = true)
    rw [List.append_assoc]
    exact expression_nested rfl hx (by simp at hL; omega) (goesOn_semicolon lastWords)

theorem parsesWhen_row (blanks : Nat) (x : Identifier) (row : List (InfixOperator × Identifier)) :
    ParsesWhen (valueSource (rowText blanks x row)) limit (row.length < limit) := by
  refine parsesWhen_of_value (.row blanks x row) ?_ fun L hL => ?_
  · simp only [rowWords, List.mem_cons, List.mem_flatMap, List.not_mem_nil, or_false]
    rintro w (rfl | ⟨p, -, rfl | rfl⟩) <;> rfl
  · rw [List.length_cons, length_rowWords] at hL
    exact expression_row (goesOn_semicolon lastWords) x row (by omega)

theorem parsesWhen_calls (f : Identifier) :
    ParsesWhen (valueSource (f.text ++ repeated n "()")) limit (n < limit) := by
  refine parsesWhen_of_value (.calls f n) ?_ fun L hL => ?_
  · simp only [callWords, List.mem_cons, List.mem_flatten, List.mem_replicate]
    rintro w (rfl | ⟨call, ⟨-, rfl⟩, hw⟩)
    · rfl
    · revert w
      decide
  · exact expression_calls rfl n (goesOn_semicolon lastWords)

theorem parsesWhen_signs (a : Identifier) :
    ParsesWhen (valueSource (repeated n "- " ++ a.text)) limit (n < limit) := by
  refine parsesWhen_of_value (.signs a n) ?_ fun L hL => ?_
  · simp only [List.mem_append, List.mem_replicate, List.mem_singleton]
    rintro w (⟨-, rfl⟩ | rfl) <;> rfl
  · rw [List.append_assoc]
    exact expression_signs rfl rfl rfl (by simp at hL; omega) (goesOn_semicolon lastWords)

theorem parsesWhen_blocks :
    ParsesWhen (bodySource (repeated n "\x7b" ++ repeated n "\x7d")) limit (n ≤ limit) := by
  refine parsesWhen_of_body ((SpellsAhead.delimiter .leftBrace).nest n)
    (.nest .blockOpener n (.close rfl)) fun L hL => ?_
  exact block_blocks (by simp [nestWords] at hL; omega) lastWords

theorem parsesWhen_choices (x : Identifier) :
    ParsesWhen (bodySource (repeated n ("if (" ++ x.text ++ ") \x7b") ++ repeated n "\x7d")) limit
      (2 * n ≤ limit) := by
  refine parsesWhen_of_body ((SpellsAhead.choiceOpener x).nest n)
    (.nest (.choiceOpener x) n (.close rfl)) fun L hL => ?_
  have hopener : (choiceOpener x).length = 5 := rfl
  exact block_choices x (by simp [nestWords, hopener] at hL; omega) lastWords

end Families

/-- The limit on nesting is exact. Parentheses, operators, calls and signs fit into a value if there
are fewer of them than the limit, since the value itself takes a level. Blocks fit into a function
if there are no more of them than the limit, and choices with blocks if twice their number is no
more. -/
theorem nesting_limit_exact (limit n : Nat) :
    ParsesWhen (valueSource (repeated n "(" ++ ("1" ++ repeated n ")"))) limit (n < limit) ∧
      (∀ (blanks : Nat) (x : Identifier) (row : List (InfixOperator × Identifier)),
        ParsesWhen (valueSource (rowText blanks x row)) limit (row.length < limit)) ∧
      (∀ f : Identifier,
        ParsesWhen (valueSource (f.text ++ repeated n "()")) limit (n < limit)) ∧
      (∀ a : Identifier,
        ParsesWhen (valueSource (repeated n "- " ++ a.text)) limit (n < limit)) ∧
      ParsesWhen (bodySource (repeated n "\x7b" ++ repeated n "\x7d")) limit (n ≤ limit) ∧
      ∀ x : Identifier,
        ParsesWhen (bodySource (repeated n ("if (" ++ x.text ++ ") \x7b") ++ repeated n "\x7d"))
          limit (2 * n ≤ limit) :=
  ⟨parsesWhen_parens limit n, parsesWhen_row limit, parsesWhen_calls limit n,
    parsesWhen_signs limit n, parsesWhen_blocks limit n, parsesWhen_choices limit n⟩

end Grammar

end CSurvey
