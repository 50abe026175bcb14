import CSurvey.Proofs.Expression.Completeness
import CSurvey.Proofs.Members.Brackets

/-! # What stands between the braces of a struct is read

Words that a declarator, a line of members or a struct body is derived from are read as such, where
the depth that is left is no less than the number of the words. -/

namespace CSurvey.Grammar

variable {s v : State} {w : Word} {ws rest : List Word}

/-! ## Pointer stars -/

/-- One round of stepping over qualifiers. -/
def qualifierRound (_ : Unit) : Parse (Turn Unit) := do
  match ← frontKind with
  | .keyword .constKw | .keyword .volatileKw =>
    let _ ← takeFront
    pure (.again ())
  | _ => pure (.done ())

theorem qualifierRound_apply (s : State) :
    qualifierRound () s =
      if s.front.kind.isQualifier = true then .ok (.again ()) s.dropFront
      else .ok (.done ()) s := by
  simp only [qualifierRound, bind_apply, frontKind_apply]
  generalize s.front.kind = k
  cases k with
  | keyword word => cases word <;> rfl
  | _ => rfl

theorem turns_qualifierRound (hs : s.script = ws ++ rest)
    (hws : ∀ q ∈ ws, q.1.isQualifier = true) (hrest : (headKind rest).isQualifier = false) :
    ∃ v, Turns qualifierRound () s () v ∧ s.Past rest 0 v := by
  induction ws generalizing s with
  | nil =>
      have hk : ¬s.front.kind.isQualifier = true := by
        rw [front_kind_of_script hs]
        simpa using hrest
      exact ⟨s, .done (by rw [qualifierRound_apply, if_neg hk]), .refl hs⟩
  | cons q ws ih =>
      obtain ⟨hq, hws⟩ := List.forall_mem_cons.mp hws
      have hk : s.front.kind.isQualifier = true := by rwa [front_kind_of_script hs]
      obtain ⟨v, hturns, hpast⟩ := ih (s.script_dropFront hs) hws
      have hround : qualifierRound () s = .ok (.again ()) s.dropFront := by
        rw [qualifierRound_apply, if_pos hk]
      exact ⟨v, .again hround (State.open_of_script hs).length_dropFront hturns,
        (State.Past.dropFront hs).trans hpast⟩

/-- One round of reading pointer stars with their qualifiers. -/
def pointerRound (stars : Nat) : Parse (Turn Nat) := do
  if ← accept (.operator .star) then
    skipQualifiers
    pure (.again (stars + 1))
  else pure (.done stars)

/-- How many pointer stars stand among the words. -/
def starCount (ws : List Word) : Nat :=
  ws.countP fun w => w.1 = .operator .star

theorem starCount_qualified {qualifiers : List Word} (hw : w.1 = .operator .star)
    (hqualifiers : ∀ q ∈ qualifiers, q.1.isQualifier = true) :
    starCount (w :: (qualifiers ++ ws)) = starCount ws + 1 := by
  have hnone : starCount qualifiers = 0 := by
    refine List.countP_eq_zero.mpr fun q hq hstar => ?_
    have hqualifier := hqualifiers q hq
    rw [of_decide_eq_true hstar] at hqualifier
    contradiction
  rw [starCount, List.countP_cons_of_pos (by simpa using hw), List.countP_append]
  show starCount qualifiers + starCount ws + 1 = starCount ws + 1
  rw [hnone, Nat.zero_add]

theorem turns_pointerRound (stars : Nat) (h : PointerWords ws) (hs : s.script = ws ++ rest)
    (hrest : headKind rest = .identifier) :
    ∃ v, Turns pointerRound stars s (stars + starCount ws) v ∧ s.Past rest 0 v := by
  induction h generalizing s stars with
  | none =>
      have hk : s.front.kind ≠ .operator .star := by
        rw [front_kind_of_script hs, List.nil_append, hrest]
        simp
      have hround : pointerRound stars s = .ok (.done stars) s := by
        simp only [pointerRound, bind_apply, accept_apply, if_neg hk]
        rfl
      exact ⟨s, .done hround, .refl hs⟩
  | @star w qualifiers ws hw hqualifiers hws ih =>
      have hk : s.front.kind = .operator .star := front_kind_of_cons hs hw
      have hdrop : s.dropFront.script = qualifiers ++ (ws ++ rest) := by
        simpa using s.script_dropFront hs
      have hnext : (headKind (ws ++ rest)).isQualifier = false := by
        cases hws with
        | none =>
            rw [List.nil_append, hrest]
            rfl
        | star hw =>
            rw [List.cons_append, headKind_cons, hw]
            rfl
      obtain ⟨v, hturns, hpast⟩ := turns_qualifierRound hdrop hqualifiers hnext
      have hskip : skipQualifiers s.dropFront = .ok () v := hturns.loop_eq
      have hround : pointerRound stars s = .ok (.again (stars + 1)) v := by
        simp only [pointerRound, bind_apply, accept_apply, if_pos hk, if_true, hskip]
        rfl
      obtain ⟨u, hmore, hpast'⟩ := ih (stars + 1) hpast.script
      have hlt := Nat.lt_of_le_of_lt hpast.length (State.open_of_script hs).length_dropFront
      have hcount : stars + starCount (w :: (qualifiers ++ ws)) = stars + 1 + starCount ws := by
        rw [starCount_qualified hw hqualifiers]
        omega
      exact ⟨u, hcount ▸ .again hround hlt hmore,
        ((State.Past.dropFront hs).trans hpast).trans hpast'⟩

theorem pointers_of_script (h : PointerWords ws) (hs : s.script = ws ++ rest)
    (hrest : headKind rest = .identifier) :
    ∃ v, pointers s = .ok (starCount ws) v ∧ s.Past rest 0 v := by
  obtain ⟨v, hturns, hpast⟩ := turns_pointerRound 0 h hs hrest
  rw [Nat.zero_add] at hturns
  exact ⟨v, hturns.loop_eq, hpast⟩

/-! ## Lists -/

/-- One round of reading results with commas between them. -/
def commaRound {α : Type} (p : Parse α) (found : List α) : Parse (Turn (List α)) := do
  let next ← p
  if ← accept (.delimiter .comma) then pure (.again (next :: found))
  else pure (.done (next :: found))

theorem commaRound_of_ok {α : Type} {p : Parse α} {found : List α} {a : α} (h : p s = .ok a v) :
    commaRound p found s =
      if v.front.kind = .delimiter .comma then .ok (.again (a :: found)) v.dropFront
      else .ok (.done (a :: found)) v := by
  rw [commaRound, bind_apply, h]
  exact accept_ite_apply _ _ _ v

/-- The reader takes the words, where a comma or a semicolon stands behind them and there is room
for them. -/
def Takes {α : Type} (p : Parse α) (ws : List Word) : Prop :=
  ∀ ⦃s : State⦄ ⦃rest : List Word⦄, s.script = ws ++ rest →
    headKind rest = .delimiter .comma ∨ headKind rest = .delimiter .semicolon →
    s.depth + ws.length ≤ s.limit → ∃ a v, p s = .ok a v ∧ s.Past rest 0 v

theorem turns_commaRound {α : Type} {p : Parse α} {lists : List (List Word)} (found : List α)
    (hws : Separated lists ws) (hsome : lists ≠ []) (hall : ∀ vs ∈ lists, Takes p vs)
    (hs : s.script = ws ++ rest) (hrest : headKind rest = .delimiter .semicolon)
    (hroom : s.depth + ws.length ≤ s.limit) :
    ∃ found' v, Turns (commaRound p) found s found' v ∧
      found'.length = lists.length + found.length ∧ s.Past rest 0 v := by
  induction hws generalizing s found with
  | none => contradiction
  | one vs =>
      obtain ⟨a, v, ha, hpast⟩ := hall vs (by simp) hs (.inr hrest) hroom
      have hk : v.front.kind ≠ .delimiter .comma := by
        rw [front_kind_of_script hpast.script, hrest]
        simp
      have hround : commaRound p found s = .ok (.done (a :: found)) v := by
        rw [commaRound_of_ok ha, if_neg hk]
      exact ⟨_, v, .done hround, by simp [Nat.add_comm], hpast⟩
  | @more c vs vs' us others hcomma hus ih =>
      rw [List.length_append, List.length_cons] at hroom
      have hs' : s.script = vs ++ (c :: (us ++ rest)) := by simpa using hs
      obtain ⟨a, v, ha, hpast⟩ := hall vs (by simp) hs' (.inl hcomma) (by omega)
      have hk : v.front.kind = .delimiter .comma := front_kind_of_cons hpast.script hcomma
      have hround : commaRound p found s = .ok (.again (a :: found)) v.dropFront := by
        rw [commaRound_of_ok ha, if_pos hk]
      have hpast' := hpast.trans (.dropFront hpast.script)
      have hlt := Nat.lt_of_lt_of_le (State.open_of_script hpast.script).length_dropFront
        hpast.length
      obtain ⟨found', u, hturns, hlength, hpast''⟩ := ih (a :: found) (by simp)
        (fun ws hws => hall ws (List.mem_cons_of_mem _ hws)) hpast'.script
        (hpast'.room (by omega))
      refine ⟨found', u, .again hround hlt hturns, ?_, hpast'.trans hpast''⟩
      simp only [hlength, List.length_cons]
      omega

/-- Words with commas between them are read as that many results. -/
theorem commaSeparated_of_script {α : Type} {p : Parse α} {lists : List (List Word)}
    (hws : Separated lists ws) (hsome : lists ≠ []) (hall : ∀ vs ∈ lists, Takes p vs)
    (hs : s.script = ws ++ rest) (hrest : headKind rest = .delimiter .semicolon)
    (hroom : s.depth + ws.length ≤ s.limit) :
    ∃ found v, commaSeparated p s = .ok found v ∧ found.length = lists.length ∧
      s.Past rest 0 v := by
  obtain ⟨found, v, hturns, hlength, hpast⟩ := turns_commaRound [] hws hsome hall hs hrest hroom
  refine ⟨found.reverse, v, ?_, by simpa using hlength, hpast⟩
  show (loop (commaRound p) [] >>= fun found => pure found.reverse) s = _
  rw [bind_apply, hturns.loop_eq]
  rfl

/-! ## Array sizes -/

/-- Before sizes stands a bracket, or else what stands behind them. -/
theorem headKind_dimensions {Size : Node → List Word → Prop} {sizes : List Node}
    (h : Dimensions Size sizes ws) (rest : List Word) :
    headKind (ws ++ rest) = .delimiter .leftBracket ∨ headKind (ws ++ rest) = headKind rest := by
  cases h with
  | none => exact .inr rfl
  | absent ho => exact .inl ho
  | size ho => exact .inl ho

theorem headKind_sizes {Names : String → List Word → Prop} {sizes : List Word} {d : Token.Delimiter}
    (h : SizeWords Names sizes) (hrest : headKind rest = .delimiter d) :
    ∃ d', headKind (sizes ++ rest) = .delimiter d' ∧ (d' = .leftBracket ∨ d' = d) := by
  obtain ⟨_, h⟩ := h.dimensions
  rcases headKind_dimensions h rest with hhead | hhead
  · exact ⟨_, hhead, .inl rfl⟩
  · exact ⟨d, hhead.trans hrest, .inr rfl⟩

/-- What one round does at a bracket: it joins the size in it to what it has. -/
structure SizeRound {α : Type} (r : Rules) (round : α → Parse (Turn α)) (join : α → Node → α) :
    Prop where
  done : ∀ ⦃a s⦄, s.front.kind ≠ .delimiter .leftBracket → round a s = .ok (.done a) s
  absent : ∀ ⦃a s⦄, s.front.kind = .delimiter .leftBracket →
    s.dropFront.front.kind = .delimiter .rightBracket →
    round a s = .ok (.again (join a (.absent s.front.location))) s.dropFront.dropFront
  size : ∀ ⦃a s u v⦄, s.front.kind = .delimiter .leftBracket →
    s.dropFront.front.kind ≠ .delimiter .rightBracket → r.expression s.dropFront = .ok u v →
    v.front.kind = .delimiter .rightBracket → round a s = .ok (.again (join a u)) v.dropFront

/-- One round of reading the array sizes of a declarator. -/
def arraySizeRound (r : Rules) (sizes : List Node) : Parse (Turn (List Node)) := do
  if (← frontKind) = .delimiter .leftBracket then
    let size ← arraySize r
    pure (.again (size :: sizes))
  else pure (.done sizes)

theorem sizeRound_arraySizeRound (r : Rules) :
    SizeRound r (arraySizeRound r) fun sizes size => size :: sizes where
  done a s hk := by
    simp only [arraySizeRound, bind_apply, frontKind_apply, if_neg hk, pure_apply]
  absent a s hk hk' := by
    simp only [arraySizeRound, arraySize, bind_apply, frontKind_apply, if_pos hk, takeFront_apply,
      accept_apply, if_pos hk']
    rfl
  size a s u v hk hk' hu hclose := by
    simp only [arraySizeRound, arraySize, bind_apply, frontKind_apply, if_pos hk, takeFront_apply,
      accept_apply, if_neg hk', Bool.false_eq_true, if_false, hu, requireMark, require_apply,
      if_pos hclose, pure_apply]

/-- One round of reading the array sizes of a parameter. -/
def parameterSizeRound (r : Rules) (type : String) : Parse (Turn String) := do
  if ← accept (.delimiter .leftBracket) then
    let size ←
      if (← frontKind) = .delimiter .rightBracket then pure ""
      else
        let size ← r.expression
        pure size.render
    let _ ← requireMark .rightBracket .afterArrayParameter
    pure (.again (type ++ "[" ++ size ++ "]"))
  else pure (.done type)

theorem sizeRound_parameterSizeRound (r : Rules) :
    SizeRound r (parameterSizeRound r) fun type size => type ++ "[" ++ size.render ++ "]" where
  done a s hk := by
    simp only [parameterSizeRound, bind_apply, accept_apply, if_neg hk]
    rfl
  absent a s hk hk' := by
    simp only [parameterSizeRound, bind_apply, accept_apply, if_pos hk, if_true, frontKind_apply,
      if_pos hk', pure_apply, requireMark, require_apply]
    rfl
  size a s u v hk hk' hu hclose := by
    simp only [parameterSizeRound, bind_apply, accept_apply, if_pos hk, if_true, frontKind_apply,
      if_neg hk', hu, pure_apply, requireMark, require_apply, if_pos hclose]

/-- The text of array sizes in brackets. -/
def sizesText (sizes : List Node) : String :=
  String.join (sizes.map fun size => "[" ++ size.render ++ "]")

theorem foldl_sizesText (found : List Node) (type : String) :
    found.foldl (fun type size => type ++ "[" ++ size.render ++ "]") type =
      type ++ sizesText (found.map Node.unplaced) := by
  induction found generalizing type with
  | nil => simp [sizesText]
  | cons size found ih =>
      rw [List.foldl_cons, ih]
      simp [sizesText, Node.render_unplaced, String.append_assoc]

/-! ## Lists of parameters -/

theorem ellipsis_of_script {a b c : Word} (ha : a.1 = .delimiter .dot) (hb : b.1 = .delimiter .dot)
    (hc : c.1 = .delimiter .dot) (hs : s.script = a :: b :: c :: rest) :
    ∃ node v, ellipsis s = .ok node v ∧ s.Past rest 0 v := by
  have hdrop := s.script_dropFront hs
  have hdrop' := s.dropFront.script_dropFront hdrop
  have hfirst := require_of_script .inEllipsis hs ha
  have hsecond := require_of_script .inEllipsis hdrop hb
  have hthird := require_of_script .inEllipsis hdrop' hc
  refine ⟨.texted .parameter "..." s.front.location [], s.dropFront.dropFront.dropFront, ?_,
    ((State.Past.dropFront hs).trans (.dropFront hdrop)).trans (.dropFront hdrop')⟩
  simp only [ellipsis, bind_apply, here_apply, requireMark, hfirst, hsecond, hthird, pure_apply]

/-- One round of reading parameters. -/
def parameterRound (r : Rules) (found : List Node) : Parse (Turn (List Node)) := do
  if (← frontKind) = .delimiter .dot then
    let last ← ellipsis
    pure (.done (last :: found))
  else
    let next ← parameter r
    if ← accept (.delimiter .comma) then pure (.again (next :: found))
    else pure (.done (next :: found))

theorem parameterRound_of_ok {r : Rules} {found : List Node} {node : Node}
    (hs : s.front.kind ≠ .delimiter .dot) (h : parameter r s = .ok node v) :
    parameterRound r found s =
      if v.front.kind = .delimiter .comma then .ok (.again (node :: found)) v.dropFront
      else .ok (.done (node :: found)) v := by
  rw [parameterRound, bind_apply, frontKind_apply]
  dsimp only
  rw [if_neg hs, bind_apply, h]
  exact accept_ite_apply _ _ _ v

theorem parameterList_eq_parameters {r : Rules} (hclose : s.front.kind ≠ .delimiter .rightParen)
    (hvoid : ¬(s.front.kind = .keyword .voidKw ∧ s.second.kind = .delimiter .rightParen)) :
    parameterList r s = parameters r s := by
  simp only [parameterList, bind_apply, frontKind_apply, secondKind_apply, if_neg hclose]
  rw [if_neg (by simpa using hvoid)]

/-! ## Groups in braces -/

/-- One round of passing over a group in braces. -/
def braceRound : Nat × List Token → Parse (Turn (Nat × List Token))
  | (depth, passed) => do
    let token ← takeFront
    match token.kind with
    | .endOfInput => pure (.done (depth, passed))
    | .delimiter .leftBrace => pure (.again (depth + 1, token :: passed))
    | .delimiter .rightBrace =>
      if depth ≤ 1 then pure (.done (0, token :: passed))
      else pure (.again (depth - 1, token :: passed))
    | _ =>
      if depth = 0 then pure (.done (0, token :: passed))
      else pure (.again (depth, token :: passed))

theorem braceRound_left {depth : Nat} (passed : List Token)
    (hk : s.front.kind = .delimiter .leftBrace) :
    braceRound (depth, passed) s = .ok (.again (depth + 1, s.front :: passed)) s.dropFront := by
  simp only [braceRound, bind_apply, takeFront_apply, hk, pure_apply]

theorem turns_braceRound {depth : Nat} (passed : List Token) (h : ClosingWords (depth + 1) ws)
    (hs : s.script = ws ++ rest) :
    ∃ a v, Turns braceRound (depth + 1, passed) s a v ∧ s.Past rest 0 v := by
  generalize hn : depth + 1 = n at h
  induction h generalizing s depth passed with
  | done => omega
  | @opened d w ws hw _ ih =>
      obtain rfl : depth = d := by omega
      have hk : s.front.kind = .delimiter .leftBrace := front_kind_of_cons hs hw
      obtain ⟨a, v, hturns, hpast⟩ :=
        ih (s.front :: passed) (s.script_dropFront hs) (show depth + 1 + 1 = depth + 2 from rfl)
      exact ⟨a, v, .again (braceRound_left passed hk)
        (State.open_of_script hs).length_dropFront hturns, (State.Past.dropFront hs).trans hpast⟩
  | @closed d w ws hw hws ih =>
      obtain rfl : depth = d := by omega
      have hk : s.front.kind = .delimiter .rightBrace := front_kind_of_cons hs hw
      cases depth with
      | zero =>
          cases hws
          refine ⟨(0, s.front :: passed), s.dropFront, .done ?_, .dropFront hs⟩
          simp only [braceRound, bind_apply, takeFront_apply, hk]
          rfl
      | succ depth =>
          have hround : braceRound (depth + 1 + 1, passed) s =
              .ok (.again (depth + 1, s.front :: passed)) s.dropFront := by
            simp only [braceRound, bind_apply, takeFront_apply, hk]
            rw [if_neg (by omega)]
            rfl
          obtain ⟨a, v, hturns, hpast⟩ :=
            ih (s.front :: passed) (s.script_dropFront hs) rfl
          exact ⟨a, v, .again hround (State.open_of_script hs).length_dropFront hturns,
            (State.Past.dropFront hs).trans hpast⟩
  | @inside d w ws hleft hright hend _ ih =>
      obtain rfl : depth = d := by omega
      have hk : s.front.kind = w.1 := front_kind_of_script hs
      have hround : braceRound (depth + 1, passed) s =
          .ok (.again (depth + 1, s.front :: passed)) s.dropFront := by
        rw [← hk] at hleft hright hend
        simp only [braceRound, bind_apply, takeFront_apply]
        rw [if_neg (by omega)]
        rfl
      obtain ⟨a, v, hturns, hpast⟩ :=
        ih (s.front :: passed) (s.script_dropFront hs) rfl
      exact ⟨a, v, .again hround (State.open_of_script hs).length_dropFront hturns,
        (State.Past.dropFront hs).trans hpast⟩

/-- A group is passed over from its left brace to the brace that matches it. -/
theorem passBraces_of_script (passed : List Token) (hw : w.1 = .delimiter .leftBrace)
    (hws : ClosingWords 1 ws) (hs : s.script = w :: (ws ++ rest)) :
    ∃ passed' v, passBraces passed s = .ok passed' v ∧ s.dropFront.Past rest 0 v := by
  have hk : s.front.kind = .delimiter .leftBrace := front_kind_of_cons hs hw
  obtain ⟨⟨depth, passed'⟩, v, hturns, hpast⟩ :=
    turns_braceRound (s.front :: passed) hws (s.script_dropFront hs)
  have hall : Turns braceRound (0, passed) s (depth, passed') v :=
    .again (braceRound_left passed hk) (State.open_of_script hs).length_dropFront hturns
  refine ⟨passed', v, ?_, hpast⟩
  show (loop braceRound (0, passed) >>= fun found => pure found.2) s = _
  rw [bind_apply, hall.loop_eq]
  rfl

/-! ## Notes -/

/-- A note moves nothing. -/
theorem reportPassed_past (tag : String) (passed : List Token) (s : State) :
    ∃ t, reportPassed tag passed s = .ok () t ∧ s.Past s.script 0 t ∧ t.rest = s.rest := by
  unfold reportPassed
  cases passed.getLast? with
  | none => exact ⟨s, rfl, .refl rfl, rfl⟩
  | some first => exact ⟨_, rfl, ⟨rfl, rfl, Nat.le_refl _, Nat.le_refl _⟩, rfl⟩

/-- One round of reading a struct body. -/
def bodyRound (r : Rules) (tag : String) (body : StructBody) : Parse (Turn StructBody) := do
  let kind ← frontKind
  if kind = .delimiter .rightBrace then pure (.done body)
  else if kind = .endOfInput then fail (.openStruct tag)
  else if kind.isMemberType then
    reportPassed tag body.passed
    let found ← structMembers r
    pure (.again ⟨found.reverse ++ body.members, []⟩)
  else if kind = .delimiter .leftBrace then
    let passed ← passBraces body.passed
    pure (.again ⟨body.members, passed⟩)
  else
    let token ← takeFront
    pure (.again ⟨body.members, token :: body.passed⟩)

theorem bodyRound_members {r : Rules} {body : StructBody} {tag : String} {t : State}
    {found : List Node} (hk : s.front.kind.isMemberType = true)
    (hreport : reportPassed tag body.passed s = .ok () t)
    (hfound : structMembers r t = .ok found v) :
    bodyRound r tag body s = .ok (.again ⟨found.reverse ++ body.members, []⟩) v := by
  have hright : s.front.kind ≠ .delimiter .rightBrace := by
    rintro hright
    simp [hright, Token.Kind.isMemberType] at hk
  have hend : s.front.kind ≠ .endOfInput := by
    rintro hend
    simp [hend, Token.Kind.isMemberType] at hk
  simp only [bodyRound, bind_apply, frontKind_apply, if_neg hright, if_neg hend, if_pos hk,
    hreport, hfound, pure_apply]

theorem bodyRound_group {r : Rules} {body : StructBody} {tag : String} {passed : List Token}
    (hk : s.front.kind = .delimiter .leftBrace)
    (hpassed : passBraces body.passed s = .ok passed v) :
    bodyRound r tag body s = .ok (.again ⟨body.members, passed⟩) v := by
  have hright : s.front.kind ≠ .delimiter .rightBrace := by simp [hk]
  have hend : s.front.kind ≠ .endOfInput := by simp [hk]
  have hmember : ¬s.front.kind.isMemberType = true := by simp [hk, Token.Kind.isMemberType]
  simp only [bodyRound, bind_apply, frontKind_apply, if_neg hright, if_neg hend, if_neg hmember,
    if_pos hk, hpassed, pure_apply]

theorem bodyRound_loose {r : Rules} {body : StructBody} {tag : String}
    (hk : s.front.kind.isLoose = true) :
    bodyRound r tag body s = .ok (.again ⟨body.members, s.front :: body.passed⟩) s.dropFront := by
  simp only [Token.Kind.isLoose, Bool.and_eq_true, Bool.not_eq_true', bne_iff_ne] at hk
  obtain ⟨⟨⟨hmember, hleft⟩, hright⟩, hend⟩ := hk
  simp only [bodyRound, bind_apply, frontKind_apply, if_neg hright, if_neg hend, hmember,
    Bool.false_eq_true, if_false, if_neg hleft, takeFront_apply, pure_apply]

/-! ## Declarators whose parts are read -/

/-- Behind its stars a declarator has its name. -/
theorem declarator_name {name : Word} {stars : List Word} (hstars : PointerWords stars)
    (hname : name.1 = .identifier) (hs : s.script = stars ++ name :: rest) :
    ∃ v, pointers s = .ok (starCount stars) v ∧ v.front.word = name ∧
      s.Past rest 0 v.dropFront := by
  obtain ⟨v, hn, hpast⟩ := pointers_of_script hstars hs hname
  exact ⟨v, hn, v.front_word hpast.script, hpast.trans (.dropFront hpast.script)⟩

/-- A declarator with a list of parameters, which may be empty. -/
theorem declarator_of_parameterList {r : Rules} {n : Nat} {found : List Node} {u : State}
    (hn : pointers s = .ok n v) (hk : v.front.kind = .identifier)
    (hleft : v.dropFront.front.kind = .delimiter .leftParen)
    (hlist : parameterList r v.dropFront.dropFront = .ok found u)
    (hright : u.front.kind = .delimiter .rightParen) :
    declarator r s =
      .ok ⟨.texted .functionDeclarator v.front.text v.front.location found, n, []⟩
        u.dropFront := by
  simp only [declarator, bind_apply, hn, frontKind_apply, if_pos hk, takeFront_apply, accept_apply,
    if_pos hleft, if_true, hlist, requireMark, require_apply, if_pos hright, pure_apply]

/-- An expression of at most so many words. -/
def ExpressionWithin (n : Nat) (e : Node) (ws : List Word) : Prop :=
  Derives (NamesType StructWords) .expression e ws ∧ ws.length ≤ n

/-- Array sizes with no more words each than all of them have. -/
theorem exists_dimensions (h : SizeWords (NamesType StructWords) ws) :
    ∃ sizes, Dimensions (ExpressionWithin ws.length) sizes ws := by
  obtain ⟨sizes, h⟩ := h.dimensions
  exact ⟨sizes, h.mono fun _ _ hlength hes => ⟨hes, hlength⟩⟩

section Levels

variable {m : Nat} (hbody : ReadsBodies StructWords (m + 1))

include hbody

/-- An expression is read up to the mark behind it. -/
theorem expression_before_mark {n : Nat} {e : Node} {es : List Word} {d : Token.Delimiter}
    (hes : ExpressionWithin n e es) (hrest : headKind rest = .delimiter d)
    (hd : d ≠ .leftParen ∧ d ≠ .leftBracket ∧ d ≠ .dot) (hs : s.script = es ++ rest)
    (hn : n ≤ m + 1) (hroom : s.depth + n ≤ s.limit) :
    ∃ u v, (Rules.level (m + 1)).expression s = .ok u v ∧ u.unplaced = e ∧ s.Past rest 0 v := by
  obtain ⟨hes, hlength⟩ := hes
  have hstop : Tier.expression.goesOn (headKind rest) = false := by
    rw [hrest]
    exact goesOn_expression_of_delimiter hd
  have hbefore : s.Before .expression es rest :=
    ⟨hs, hstop, by show s.depth + es.length ≤ s.limit; omega⟩
  obtain ⟨u, v, hu, htree, hpast⟩ := works_within hes m (by omega) hbody.below hbefore
  refine ⟨u, v, hu, htree, hpast.script, hpast.limit, ?_, hpast.length⟩
  obtain ⟨-, x, -, rfl⟩ := oneDeeper_eq_ok.mp hu
  exact Nat.le_refl _

theorem turns_sizes {α : Type} {n : Nat} {round : α → Parse (Turn α)} {join : α → Node → α}
    {sizes : List Node} (hround : SizeRound (.level (m + 1)) round join) (a : α)
    (h : Dimensions (ExpressionWithin n) sizes ws) (hs : s.script = ws ++ rest)
    (hrest : headKind rest ≠ .delimiter .leftBracket) (hn : n ≤ m + 1)
    (hroom : s.depth + n ≤ s.limit) :
    ∃ (found : List Node) (v : State), Turns round a s (found.foldl join a) v ∧
      found.map Node.unplaced = sizes ∧ s.Past rest 0 v := by
  induction h generalizing s a with
  | none =>
      have hk : s.front.kind ≠ .delimiter .leftBracket := by rwa [front_kind_of_script hs]
      exact ⟨[], s, .done (hround.done hk), rfl, .refl hs⟩
  | @absent o c sizes ws ho hc _ ih =>
      have hk : s.front.kind = .delimiter .leftBracket := front_kind_of_cons hs ho
      have hdrop : s.dropFront.script = c :: (ws ++ rest) := s.script_dropFront hs
      have hk' : s.dropFront.front.kind = .delimiter .rightBracket := front_kind_of_cons hdrop hc
      have hpast := (State.Past.dropFront hs).trans (.dropFront hdrop)
      obtain ⟨found, v, hturns, hfound, hpast'⟩ :=
        ih (join a (.absent s.front.location)) hpast.script (hpast.room hroom)
      have hlt := Nat.lt_of_lt_of_le (State.open_of_script hdrop).length_dropFront
        (State.Past.dropFront hs).length
      refine ⟨.absent s.front.location :: found, v, .again (hround.absent hk hk') hlt hturns, ?_,
        hpast.trans hpast'⟩
      rw [List.map_cons, hfound, Node.absent, Node.unplaced_plain]
      rfl
  | @size o c e sizes es ws ho hc hes _ ih =>
      have hk : s.front.kind = .delimiter .leftBracket := front_kind_of_cons hs ho
      have hdrop : s.dropFront.script = es ++ c :: (ws ++ rest) := by
        simpa using s.script_dropFront hs
      have hk' : s.dropFront.front.kind ≠ .delimiter .rightBracket := by
        obtain ⟨w, es', rfl, hw⟩ := hes.1.head
        rw [front_kind_of_script hdrop]
        rintro hclose
        rw [List.cons_append, headKind_cons] at hclose
        rw [hclose] at hw
        contradiction
      have hhead : headKind (c :: (ws ++ rest)) = .delimiter .rightBracket := hc
      obtain ⟨u, v, hu, rfl, hpast⟩ :=
        expression_before_mark hbody hes hhead (by simp) hdrop hn hroom
      have hclose : v.front.kind = .delimiter .rightBracket := front_kind_of_cons hpast.script hc
      have hpast' := ((State.Past.dropFront hs).trans hpast).trans (.dropFront hpast.script)
      obtain ⟨found, v', hturns, hfound, hpast''⟩ :=
        ih (join a u) hpast'.script (hpast'.room hroom)
      have hlt := Nat.lt_of_lt_of_le (State.open_of_script hpast.script).length_dropFront
        ((State.Past.dropFront hs).trans hpast).length
      exact ⟨u :: found, v', .again (hround.size hk hk' hu hclose) hlt hturns,
        by rw [List.map_cons, hfound], hpast'.trans hpast''⟩

/-- The array sizes of a declarator are read with their trees. -/
theorem arraySizes_of_dimensions {n : Nat} {sizes : List Node}
    (h : Dimensions (ExpressionWithin n) sizes ws) (hs : s.script = ws ++ rest)
    (hrest : headKind rest ≠ .delimiter .leftBracket) (hn : n ≤ m + 1)
    (hroom : s.depth + n ≤ s.limit) :
    ∃ found v, arraySizes (.level (m + 1)) s = .ok found v ∧ found.map Node.unplaced = sizes ∧
      s.Past rest 0 v := by
  obtain ⟨found, v, hturns, hfound, hpast⟩ :=
    turns_sizes hbody (sizeRound_arraySizeRound _) [] h hs hrest hn hroom
  refine ⟨found, v, ?_, hfound, hpast⟩
  show (loop (arraySizeRound (.level (m + 1))) [] >>= fun sizes => pure sizes.reverse) s = _
  rw [bind_apply, hturns.loop_eq]
  simp [pure_apply]

/-- The array sizes of a parameter are added to the text of its type. -/
theorem parameterSizes_of_dimensions {n : Nat} {sizes : List Node} (type : String)
    (h : Dimensions (ExpressionWithin n) sizes ws) (hs : s.script = ws ++ rest)
    (hrest : headKind rest ≠ .delimiter .leftBracket) (hn : n ≤ m + 1)
    (hroom : s.depth + n ≤ s.limit) :
    ∃ v, parameterSizes (.level (m + 1)) type s = .ok (type ++ sizesText sizes) v ∧
      s.Past rest 0 v := by
  obtain ⟨found, v, hturns, rfl, hpast⟩ :=
    turns_sizes hbody (sizeRound_parameterSizeRound _) type h hs hrest hn hroom
  exact ⟨v, foldl_sizesText found type ▸ hturns.loop_eq, hpast⟩

/-! ## Parameters -/

theorem typeName_of_words {type : String} {ts : List Word} (hts : NamesType StructWords type ts)
    (hs : s.script = ts ++ rest) (hrest : (headKind rest).startsType = false)
    (hbrace : headKind rest ≠ .delimiter .leftBrace) (hstar : headKind rest ≠ .operator .star)
    (hlength : ts.length ≤ m + 1) (hroom : s.depth + ts.length ≤ s.limit) :
    ∃ v, typeName (.level (m + 1)) s = .ok type v ∧ s.Past rest 0 v :=
  typeName_of_script (fun body hwords hlt => hbody _ (Nat.le_refl _) body hwords (by omega)) hts hs
    hrest hbrace hstar hroom

/-- Behind the type of a parameter stand its name and its array sizes. -/
theorem parameter_of_named {n : Nat} {type : String} {name : Word} {dims : List Word}
    {sizes : List Node} (hopens : s.front.kind.startsType = true)
    (htype : typeName (.level (m + 1)) s = .ok type v)
    (hpast : s.Past (name :: (dims ++ rest)) 0 v) (hname : name.1 = .identifier)
    (hsizes : Dimensions (ExpressionWithin n) sizes dims)
    (hrest : headKind rest ≠ .delimiter .leftBracket) (hn : n ≤ m + 1)
    (hroom : s.depth + n ≤ s.limit) :
    ∃ node u, parameter (.level (m + 1)) s = .ok node u ∧
      node.unplaced = .texted .parameter (type ++ sizesText sizes) .start
        [.texted .identifier name.2 .start []] ∧ s.Past rest 0 u := by
  have hdrop := hpast.trans (.dropFront hpast.script)
  obtain ⟨u, hu, hpast'⟩ := parameterSizes_of_dimensions hbody type hsizes hdrop.script hrest hn
    (hdrop.room hroom)
  have hk : v.front.kind = .identifier := front_kind_of_cons hpast.script hname
  have hrun : parameterName v =
      .ok [.texted .identifier v.front.text v.front.location []] v.dropFront := by
    simp only [parameterName, bind_apply, frontKind_apply, if_pos hk, takeFront_apply, pure_apply]
  have htext : v.front.text = name.2 := by
    rw [← v.front_word hpast.script]
    rfl
  refine ⟨.texted .parameter (type ++ sizesText sizes) s.front.location
    [.texted .identifier v.front.text v.front.location []], u, ?_, by simp [htext],
    hdrop.trans hpast'⟩
  simp only [parameter, here_apply, bind_apply, frontKind_apply, if_pos hopens, htype, hrun, hu,
    pure_apply]

/-- A parameter may be without a name. -/
theorem parameter_of_unnamed {n : Nat} {type : String} {dims : List Word} {sizes : List Node}
    (hopens : s.front.kind.startsType = true) (htype : typeName (.level (m + 1)) s = .ok type v)
    (hpast : s.Past (dims ++ rest) 0 v) (hname : headKind (dims ++ rest) ≠ .identifier)
    (hsizes : Dimensions (ExpressionWithin n) sizes dims)
    (hrest : headKind rest ≠ .delimiter .leftBracket) (hn : n ≤ m + 1)
    (hroom : s.depth + n ≤ s.limit) :
    ∃ u, parameter (.level (m + 1)) s =
        .ok (.texted .parameter (type ++ sizesText sizes) s.front.location []) u ∧
      s.Past rest 0 u := by
  obtain ⟨u, hu, hpast'⟩ := parameterSizes_of_dimensions hbody type hsizes hpast.script hrest hn
    (hpast.room hroom)
  have hk : v.front.kind ≠ .identifier := by rwa [front_kind_of_script hpast.script]
  have hrun : parameterName v = .ok [] v := by
    simp only [parameterName, bind_apply, frontKind_apply, if_neg hk, pure_apply]
  refine ⟨u, ?_, hpast.trans hpast'⟩
  simp only [parameter, here_apply, bind_apply, frontKind_apply, if_pos hopens, htype, hrun, hu,
    pure_apply]

theorem parameter_of_script {d : Token.Delimiter} (h : ParameterWords (NamesType StructWords) ws)
    (hs : s.script = ws ++ rest) (hrest : headKind rest = .delimiter d)
    (hd : d = .comma ∨ d = .rightParen) (hlength : ws.length ≤ m + 1)
    (hroom : s.depth + ws.length ≤ s.limit) :
    ∃ node v, parameter (.level (m + 1)) s = .ok node v ∧ s.Past rest 0 v := by
  have hopens : s.front.kind.startsType = true := by
    obtain ⟨w, ws', rfl, hw⟩ := h.head
    rwa [front_kind_of_script hs]
  have hbracket : headKind rest ≠ .delimiter .leftBracket := by
    rw [hrest]
    rcases hd with rfl | rfl <;> simp
  cases h with
  | @unnamed type ts sizes hts hsizes =>
      rw [List.length_append] at hlength hroom
      rw [List.append_assoc] at hs
      obtain ⟨d', hhead, hd'⟩ := headKind_sizes hsizes hrest
      have hclose : d' = .leftBracket ∨ d' = .comma ∨ d' = .rightParen := by
        rcases hd' with rfl | rfl
        · exact .inl rfl
        · exact .inr hd
      obtain ⟨v, hv, hpast⟩ := typeName_of_words hbody hts hs (by rw [hhead]; rfl)
        (by rw [hhead]; rcases hclose with rfl | rfl | rfl <;> simp) (by rw [hhead]; simp)
        (by omega) (by omega)
      obtain ⟨found, hfound⟩ := exists_dimensions hsizes
      obtain ⟨u, hu, hpast'⟩ := parameter_of_unnamed hbody hopens hv hpast (by simp [hhead]) hfound
        hbracket (by omega) (by omega)
      exact ⟨_, u, hu, hpast'⟩
  | @named type name ts sizes hts hname hsizes =>
      rw [List.length_append, List.length_cons] at hlength hroom
      have hs' : s.script = ts ++ name :: (sizes ++ rest) := by simpa using hs
      obtain ⟨v, hv, hpast⟩ := typeName_of_words hbody hts hs' (by rw [headKind_cons, hname]; rfl)
        (by rw [headKind_cons, hname]; simp) (by rw [headKind_cons, hname]; simp) (by omega)
        (by omega)
      obtain ⟨found, hfound⟩ := exists_dimensions hsizes
      obtain ⟨node, u, hnode, -, hpast'⟩ := parameter_of_named hbody hopens hv hpast hname hfound
        hbracket (by omega) (by omega)
      exact ⟨node, u, hnode, hpast'⟩

theorem turns_parameterRound (found : List Node)
    (h : ParametersWords (NamesType StructWords) ws) (hs : s.script = ws ++ rest)
    (hrest : headKind rest = .delimiter .rightParen) (hlength : ws.length ≤ m + 1)
    (hroom : s.depth + ws.length ≤ s.limit) :
    ∃ found' v, Turns (parameterRound (.level (m + 1))) found s found' v ∧ s.Past rest 0 v := by
  have hdot : ∀ {us vs : List Word} {s : State}, ParameterWords (NamesType StructWords) us →
      s.script = us ++ vs → s.front.kind ≠ .delimiter .dot := by
    rintro us vs s hus hs hk
    obtain ⟨w, us', rfl, hw⟩ := hus.head
    rw [front_kind_of_script hs, List.cons_append, headKind_cons] at hk
    rw [hk] at hw
    contradiction
  induction h generalizing s found with
  | further ha hb hc =>
      have hk : s.front.kind = .delimiter .dot := front_kind_of_cons hs ha
      obtain ⟨node, v, hnode, hpast⟩ := ellipsis_of_script ha hb hc hs
      refine ⟨node :: found, v, .done ?_, hpast⟩
      simp only [parameterRound, bind_apply, frontKind_apply, if_pos hk, hnode, pure_apply]
  | last h =>
      obtain ⟨node, v, hnode, hpast⟩ :=
        parameter_of_script hbody h hs hrest (.inr rfl) hlength hroom
      have hk : v.front.kind ≠ .delimiter .comma := by
        rw [front_kind_of_script hpast.script, hrest]
        simp
      refine ⟨node :: found, v, .done ?_, hpast⟩
      rw [parameterRound_of_ok (hdot h hs) hnode, if_neg hk]
  | @more c ws us hc h _ ih =>
      rw [List.length_append, List.length_cons] at hlength hroom
      have hs' : s.script = ws ++ c :: (us ++ rest) := by simpa using hs
      obtain ⟨node, v, hnode, hpast⟩ :=
        parameter_of_script hbody h hs' hc (.inl rfl) (by omega) (by omega)
      have hk : v.front.kind = .delimiter .comma := front_kind_of_cons hpast.script hc
      have hround : parameterRound (.level (m + 1)) found s =
          .ok (.again (node :: found)) v.dropFront := by
        rw [parameterRound_of_ok (hdot h hs') hnode, if_pos hk]
      have hpast' := hpast.trans (.dropFront hpast.script)
      have hlt := Nat.lt_of_lt_of_le (State.open_of_script hpast.script).length_dropFront
        hpast.length
      obtain ⟨found', u, hturns, hpast''⟩ :=
        ih (node :: found) hpast'.script (by omega) (hpast'.room (by omega))
      exact ⟨found', u, .again hround hlt hturns, hpast'.trans hpast''⟩

/-- Parameters are read up to the parenthesis behind them, the word `void` alone too. -/
theorem parameterList_of_script (h : ParametersWords (NamesType StructWords) ws)
    (hs : s.script = ws ++ rest) (hrest : headKind rest = .delimiter .rightParen)
    (hlength : ws.length ≤ m + 1) (hroom : s.depth + ws.length ≤ s.limit) :
    ∃ params v, parameterList (.level (m + 1)) s = .ok params v ∧ s.Past rest 0 v := by
  obtain ⟨w, us, rfl, hw⟩ := h.head
  have hk : s.front.kind = w.1 := front_kind_of_script hs
  have hclose : s.front.kind ≠ .delimiter .rightParen := by
    rintro hclose
    rw [← hk, hclose] at hw
    simp [Token.Kind.startsType, Token.Kind.isBaseType, Token.Kind.isTypeModifier] at hw
  by_cases hvoid : s.front.kind = .keyword .voidKw ∧ s.second.kind = .delimiter .rightParen
  · have hnone : us = [] := by
      cases us with
      | nil => rfl
      | cons c us =>
          have hc : c.1 = .delimiter .rightParen := by
            rw [← hvoid.2, s.second_kind hs]
            rfl
          have heven : EvenWords (w :: c :: us) :=
            h.even fun _ _ hts => hts.even fun _ => StructWords.even
          have hplain : w.1.isPlain = true := by
            rw [← hk, hvoid.1]
            rfl
          exact absurd hc (heven.tail hplain).head_ne
    subst hnone
    refine ⟨[], s.dropFront, ?_, .dropFront hs⟩
    simp only [parameterList, bind_apply, frontKind_apply, secondKind_apply, hvoid.1, hvoid.2]
    rfl
  · obtain ⟨found, v, hturns, hpast⟩ :=
      turns_parameterRound hbody [] h hs hrest hlength hroom
    refine ⟨found.reverse, v, ?_, hpast⟩
    rw [parameterList_eq_parameters hclose hvoid]
    show (loop (parameterRound (.level (m + 1))) [] >>= fun found => pure found.reverse) s = _
    rw [bind_apply, hturns.loop_eq]
    rfl

/-! ## Declarators -/

/-- The declarator of a variable is read with its stars and the trees of its array sizes. -/
theorem declarator_of_object {n : Nat} {name : Word} {stars dims : List Word} {sizes : List Node}
    (hstars : PointerWords stars) (hname : name.1 = .identifier)
    (hsizes : Dimensions (ExpressionWithin n) sizes dims)
    (hs : s.script = stars ++ name :: (dims ++ rest))
    (hparen : headKind rest ≠ .delimiter .leftParen)
    (hbracket : headKind rest ≠ .delimiter .leftBracket) (hn : n ≤ m + 1)
    (hroom : s.depth + n ≤ s.limit) :
    ∃ d v, declarator (.level (m + 1)) s = .ok d v ∧
      d.node.unplaced = .texted .variableDeclarator name.2 .start sizes ∧
      d.stars = starCount stars ∧ d.sizes = sizes.map Node.render ∧ s.Past rest 0 v := by
  obtain ⟨v, hcount, rfl, hpast⟩ := declarator_name hstars hname hs
  have hk : v.front.kind = .identifier := hname
  have hopen : v.dropFront.front.kind ≠ .delimiter .leftParen := by
    rw [front_kind_of_script hpast.script]
    rcases headKind_dimensions hsizes rest with hhead | hhead
    · simp [hhead]
    · rwa [hhead]
  obtain ⟨found, u, hu, rfl, hpast'⟩ := arraySizes_of_dimensions hbody hsizes hpast.script hbracket
    hn (hpast.room hroom)
  refine ⟨⟨.texted .variableDeclarator v.front.text v.front.location found, starCount stars,
    found.map Node.render⟩, u, ?_, by simp, rfl, ?_, hpast.trans hpast'⟩
  · simp only [declarator, bind_apply, hcount, frontKind_apply, if_pos hk, takeFront_apply,
      accept_apply, if_neg hopen, Bool.false_eq_true, if_false, hu, pure_apply]
  · simp [Node.render_unplaced]

theorem declarator_takes (h : DeclaratorWords (NamesType StructWords) ws)
    (hlength : ws.length ≤ m + 1) : Takes (declarator (.level (m + 1))) ws := by
  intro s rest hs hrest hroom
  cases h with
  | @object name stars sizes hstars hname hsizes =>
      rw [List.length_append, List.length_cons] at hlength hroom
      have hs' : s.script = stars ++ name :: (sizes ++ rest) := by simpa using hs
      have hopen : headKind rest ≠ .delimiter .leftParen ∧ headKind rest ≠ .delimiter .leftBracket := by
        rcases hrest with hrest | hrest <;> simp [hrest]
      obtain ⟨found, hfound⟩ := exists_dimensions hsizes
      obtain ⟨d, v, hd, -, -, -, hpast⟩ := declarator_of_object hbody hstars hname hfound hs'
        hopen.1 hopen.2 (by omega) (by omega)
      exact ⟨d, v, hd, hpast⟩
  | @procedure name o c stars hstars hname ho hc =>
      have hs' : s.script = stars ++ name :: o :: c :: rest := by simpa using hs
      obtain ⟨v, hn, rfl, hpast⟩ := declarator_name hstars hname hs'
      have hpast' := hpast.trans (.dropFront hpast.script)
      have hnone : v.dropFront.dropFront.front.kind = .delimiter .rightParen :=
        front_kind_of_cons hpast'.script hc
      have hlist : parameterList (.level (m + 1)) v.dropFront.dropFront =
          .ok [] v.dropFront.dropFront := by
        simp only [parameterList, bind_apply, frontKind_apply, secondKind_apply, if_pos hnone,
          pure_apply]
      exact ⟨_, _, declarator_of_parameterList hn hname (front_kind_of_cons hpast.script ho) hlist
        hnone, hpast'.trans (.dropFront hpast'.script)⟩
  | @function name o c stars params hstars hname ho hc hparams =>
      simp only [List.length_append, List.length_cons] at hlength hroom
      have hs' : s.script = stars ++ name :: o :: (params ++ c :: rest) := by simpa using hs
      obtain ⟨v, hn, rfl, hpast⟩ := declarator_name hstars hname hs'
      have hpast' := hpast.trans (.dropFront hpast.script)
      obtain ⟨found, u, hu, hpast''⟩ := parameterList_of_script hbody hparams hpast'.script hc
        (by omega) (hpast'.room (by omega))
      exact ⟨_, _, declarator_of_parameterList hn hname (front_kind_of_cons hpast.script ho) hu
        (front_kind_of_cons hpast''.script hc),
        (hpast'.trans hpast'').trans (.dropFront hpast''.script)⟩

/-! ## Bodies -/

/-- A line of members is read as that many members. -/
theorem structMembers_of_script {n : Nat} (h : MemberWords (NamesType StructWords) n ws)
    (hs : s.script = ws ++ rest) (hlength : ws.length ≤ m + 1)
    (hroom : s.depth + ws.length ≤ s.limit) :
    ∃ found v, structMembers (.level (m + 1)) s = .ok found v ∧ found.length = n ∧
      s.Past rest 0 v ∧ v.rest.length < s.rest.length := by
  obtain ⟨hbase, hsome, hall, hwords, hstop⟩ := h
  rename_i base stop declarators us
  simp only [List.length_cons, List.length_append] at hlength hroom
  have hk : s.front.kind.isMemberType = true := by
    rw [front_kind_of_script hs]
    exact hbase
  have hdrop : s.dropFront.script = us ++ stop :: rest := by simpa using s.script_dropFront hs
  obtain ⟨type, htype⟩ := typeSpecifier_member (r := Rules.level (m + 1)) hk
  have htakes : ∀ vs ∈ declarators, Takes (declarator (.level (m + 1))) vs := by
    intro vs hvs
    have hle := hwords.length_le hvs
    exact declarator_takes hbody (hall vs hvs) (by omega)
  obtain ⟨found, v, hv, hfound, hpast⟩ := commaSeparated_of_script hwords hsome htakes hdrop
    hstop (by show s.depth + us.length ≤ s.limit; omega)
  have hclose := require_of_script .afterStructMember hpast.script hstop
  have hpast' := hpast.trans (.dropFront hpast.script)
  refine ⟨found.map fun d => .texted .structMember (d.wholeType type.text) s.front.location
    [d.node], v.dropFront, ?_, by simpa using hfound, (State.Past.dropFront hs).trans hpast',
    Nat.lt_of_le_of_lt hpast'.length (State.open_of_script hs).length_dropFront⟩
  simp only [structMembers, bind_apply, here_apply, htype, hv, requireMark, hclose, pure_apply]

theorem turns_bodyRound {n : Nat} (tag : String) (body : StructBody)
    (h : BodyWords (NamesType StructWords) n ws) (hs : s.script = ws ++ rest)
    (hrest : headKind rest = .delimiter .rightBrace)
    (hlength : ws.length ≤ m + 1) (hroom : s.depth + ws.length ≤ s.limit) :
    ∃ body' v, Turns (bodyRound (.level (m + 1)) tag) body s body' v ∧
      body'.members.length = n + body.members.length ∧ s.Past rest 0 v := by
  induction h generalizing s body with
  | none =>
      have hk : s.front.kind = .delimiter .rightBrace := by
        rw [front_kind_of_script hs]
        exact hrest
      refine ⟨body, s, .done ?_, by simp, .refl hs⟩
      simp only [bodyRound, bind_apply, frontKind_apply, if_pos hk, pure_apply]
  | @members j n ws us hmembers _ ih =>
      simp only [List.length_append] at hlength hroom
      have hs' : s.script = ws ++ (us ++ rest) := by simpa using hs
      obtain ⟨t, hreport, hpast, hsame⟩ := reportPassed_past tag body.passed s
      have ht : t.script = ws ++ (us ++ rest) := hpast.script.trans hs'
      obtain ⟨found, v, hfound, hcount, hpast', hlt⟩ :=
        structMembers_of_script hbody hmembers ht (by omega) (hpast.room (by omega))
      have hk : s.front.kind.isMemberType = true := by
        obtain ⟨hbase, -, -, -, -⟩ := hmembers
        rw [front_kind_of_script hs']
        exact hbase
      have hround := bodyRound_members hk hreport hfound
      have hall := hpast.trans hpast'
      obtain ⟨body', u, hturns, hcount', hpast''⟩ :=
        ih ⟨found.reverse ++ body.members, []⟩ hall.script (by omega) (hall.room (by omega))
      refine ⟨body', u, .again hround (hsame ▸ hlt) hturns, ?_, hall.trans hpast''⟩
      rw [hcount', List.length_append, List.length_reverse, hcount]
      omega
  | @group n o ws us ho hclosing _ ih =>
      simp only [List.length_cons, List.length_append] at hlength hroom
      have hs' : s.script = o :: (ws ++ (us ++ rest)) := by simpa using hs
      have hk : s.front.kind = .delimiter .leftBrace := front_kind_of_cons hs' ho
      obtain ⟨passed, v, hpassed, hpast⟩ := passBraces_of_script body.passed ho hclosing hs'
      have hlt := Nat.lt_of_le_of_lt hpast.length (State.open_of_script hs').length_dropFront
      have hpast' := (State.Past.dropFront hs').trans hpast
      obtain ⟨body', u, hturns, hcount, hpast''⟩ :=
        ih ⟨body.members, passed⟩ hpast'.script (by omega) (hpast'.room (by omega))
      exact ⟨body', u, .again (bodyRound_group hk hpassed) hlt hturns, hcount,
        hpast'.trans hpast''⟩
  | @loose n w us hw _ ih =>
      simp only [List.length_cons] at hlength hroom
      have hk : s.front.kind.isLoose = true := by
        rw [front_kind_of_script hs]
        exact hw
      have hpast := State.Past.dropFront hs
      obtain ⟨body', v, hturns, hcount, hpast'⟩ :=
        ih ⟨body.members, s.front :: body.passed⟩ hpast.script (by omega)
          (hpast.room (by omega))
      exact ⟨body', v, .again (bodyRound_loose hk) (State.open_of_script hs).length_dropFront
        hturns, hcount, hpast.trans hpast'⟩

/-- A struct with a body is read, with so many members. -/
theorem structSpecifier_of_body {n : Nat} {k tag o c : Word}
    (h : BodyWords (NamesType StructWords) n ws) (htag : tag.1 = .identifier)
    (ho : o.1 = .delimiter .leftBrace) (hc : c.1 = .delimiter .rightBrace)
    (hs : s.script = k :: tag :: o :: (ws ++ c :: rest)) (hlength : ws.length ≤ m + 1)
    (hroom : s.depth + ws.length ≤ s.limit) :
    ∃ members v, structSpecifier (.level (m + 1)) s =
        .ok (.texted .structDefinition tag.2 s.front.location members) v ∧
      members.length = n ∧ s.Past rest 0 v := by
  have hdrop := s.script_dropFront hs
  have hdrop' := s.dropFront.script_dropFront hdrop
  have hdrop'' := s.dropFront.dropFront.script_dropFront hdrop'
  have hk : s.dropFront.front.kind = .identifier := front_kind_of_cons hdrop htag
  have hbrace : s.dropFront.dropFront.front.kind = .delimiter .leftBrace :=
    front_kind_of_cons hdrop' ho
  have htext : s.dropFront.front.text = tag.2 := by rw [← Token.word_snd, State.front_word hdrop]
  obtain ⟨body, v, hturns, hcount, hpast⟩ :=
    turns_bodyRound hbody tag.2 ⟨[], []⟩ h hdrop'' hc hlength hroom
  obtain ⟨t, hreport, hpast', -⟩ := reportPassed_past tag.2 body.passed v
  have hread : structBody (.level (m + 1)) tag.2 s.dropFront.dropFront.dropFront =
      .ok body.members.reverse t := by
    show (loop (bodyRound (.level (m + 1)) tag.2) ⟨[], []⟩ >>= fun body => do
      reportPassed tag.2 body.passed
      pure body.members.reverse) _ = _
    simp only [bind_apply, hturns.loop_eq, hreport, pure_apply]
  have hclose : t.front.kind = .delimiter .rightBrace :=
    front_kind_of_cons (hpast'.script.trans hpast.script) hc
  have hall := (State.Past.dropFront hs).trans ((State.Past.dropFront hdrop).trans
    ((State.Past.dropFront hdrop').trans (hpast.trans hpast')))
  refine ⟨body.members.reverse, t.dropFront, ?_, by simpa using hcount,
    (State.Past.trans hall (.dropFront (hpast'.script.trans hpast.script))).mono (by omega)⟩
  simp only [structSpecifier, bind_apply, takeFront_apply, frontKind_apply, if_pos hk, accept_apply,
    if_pos hbrace, if_true, htext, hread, requireMark, require_apply, if_pos hclose, pure_apply]

end Levels

/-- The rules read the structs of the grammar, at as many levels as there are words in a body. -/
theorem readsBodies (n : Nat) : ReadsBodies StructWords n := by
  induction n with
  | zero =>
      intro m hm body _ hlength
      omega
  | succ n ih =>
      intro m hm body hwords hlength
      rcases Nat.lt_or_ge m (n + 1) with hlt | hge
      · exact ih m (by omega) body hwords hlength
      · obtain rfl : m = n + 1 := by omega
        cases hwords with
        | absent => exact Rules.readsBody_nil n
        | @braces j o c ws ho hc hws _ =>
            simp only [List.length_cons, List.length_append, List.length_nil] at hlength
            obtain ⟨l, rfl⟩ : ∃ l, n = l + 1 := ⟨n - 1, by omega⟩
            intro s k tag rest hs htag _ hroom
            simp only [List.length_cons, List.length_append] at hroom
            obtain ⟨members, v, hv, -, hpast⟩ := structSpecifier_of_body ih hws htag ho hc
              (by simpa using hs) (by omega) (by omega)
            exact ⟨_, v, hv, rfl, hpast⟩

end CSurvey.Grammar
