import CSurvey.Proofs.Declaration.Variables
import CSurvey.Proofs.Expression.Printing
import CSurvey.Survey.Basic

/-! # Types of variables and of parameters

The same type, stars, name and array sizes are written as a variable and as the parameter of a
function. The two readers agree on the type, except where a qualifier follows a star: the one of
variables steps over it, and the one of parameters stops there. -/

namespace CSurvey

open Grammar (starCount sizesText HasWords ExpressionWithin)

/-! ## What is declared -/

/-- The parse is clean and has one declaration, of a variable of the given type. -/
def Parsed.DeclaresVariable (p : Parsed) (type : String) : Prop :=
  p.isClean = true ∧ ∃ node, p.root.children = [node] ∧ node.kind = .variableDeclaration ∧
    node.text? = some type

/-- The parse is clean and has one declaration, of a function with the given parameter only. -/
def Parsed.DeclaresParameter (p : Parsed) (parameter : ParameterEntry) : Prop :=
  p.isClean = true ∧ ∃ node, p.root.children = [node] ∧ node.kind = .functionDeclaration ∧
    node.parameterEntries = [parameter]

/-- The words of `T p name d;`. -/
def variableWords (ts p : List Word) (name : Word) (dims : List Word) : List Word :=
  ts ++ ((p ++ name :: dims) ++ [delimiterWord .semicolon])

/-- The words of `void f(T p name d);`. -/
def functionWords (ts p : List Word) (name : Word) (dims : List Word) : List Word :=
  (.keyword .voidKw, "void") :: (.identifier, "f") :: delimiterWord .leftParen ::
    (ts ++ (p ++ name :: (dims ++ [delimiterWord .rightParen, delimiterWord .semicolon])))

/-! ## Stars and their qualifiers -/

/-- Stars are without qualifiers, or the first qualifier stands behind some of them. -/
theorem PointerWords.split {ws : List Word} (h : PointerWords ws) :
    (∀ w ∈ ws, w.1 = .operator .star) ∨
      ∃ stars q more, ws = stars ++ q :: more ∧ stars ≠ [] ∧
        (∀ w ∈ stars, w.1 = .operator .star) ∧ q.1.isQualifier = true := by
  induction h with
  | none => exact .inl (by simp)
  | @star w qualifiers ws hw hqualifiers _ ih =>
      cases qualifiers with
      | cons q qualifiers =>
          exact .inr ⟨[w], q, qualifiers ++ ws, rfl, by simp, by simpa using hw,
            hqualifiers q (List.mem_cons_self ..)⟩
      | nil =>
          rcases ih with hall | ⟨stars, q, more, rfl, -, hstars, hq⟩
          · exact .inl (List.forall_mem_cons.mpr ⟨hw, hall⟩)
          · exact .inr ⟨w :: stars, q, more, rfl, by simp, List.forall_mem_cons.mpr ⟨hw, hstars⟩, hq⟩

theorem Grammar.starCount_of_stars {ws : List Word} (h : ∀ w ∈ ws, w.1 = .operator .star) :
    starCount ws = ws.length :=
  List.countP_eq_length.mpr fun w hw => decide_eq_true (h w hw)

/-- Words of a type are neither delimiters nor operators. -/
theorem NamesSpecifier.ne_delimiter {type : String} {ts : List Word}
    (h : NamesSpecifier (· = []) type ts) : ∀ w ∈ ts, ∀ d, w.1 ≠ .delimiter d := by
  have hnot : ∀ {k : Token.Kind} {d : Token.Delimiter}, k.isTypeModifier = true ∨
      k.isBaseType = true → k ≠ .delimiter d := by
    rintro k d (h | h) rfl <;> contradiction
  obtain ⟨hmodifiers, hbase, -⟩ := h
  refine List.forall_mem_append.mpr ⟨fun w hw d => hnot (.inl (hmodifiers w hw)), ?_⟩
  cases hbase with
  | base hw => simpa using fun d => hnot (d := d) (.inr hw)
  | struct hk htag hbody => simp [hk, htag, hbody]
  | absent => simp

/-- Places are no part of a parameter. -/
theorem Node.parameterEntry_unplaced (n : Node) : n.unplaced.parameterEntry = n.parameterEntry := by
  have htext : ∀ m : Node, m.unplaced.text? = m.text? := fun m => by simp [text?]
  obtain ⟨kind, value, children, location⟩ := n
  rw [parameterEntry, parameterEntry, textOrUnknown, textOrUnknown, htext]
  cases children with
  | nil => simp
  | cons c children => simp [htext]

theorem Node.parameterEntries_of_parameter (kind : Kind) (type name : String) (l l' : Position)
    {n : Node} (hn : n.kind = .parameter) :
    (texted kind type l [texted .functionDeclarator name l' [n]]).parameterEntries =
      [n.parameterEntry] := by
  show ([n].filter fun c => c.kind = .parameter).map parameterEntry = _
  simp [hn]

namespace Grammar

variable {s v : State} {ws rest : List Word}

/-! ## Functions with one parameter -/

/-- A single parameter is a list of parameters. -/
theorem parameterList_of_parameter {r : Rules} {node : Node}
    (hclose : s.front.kind ≠ .delimiter .rightParen)
    (hsecond : s.second.kind ≠ .delimiter .rightParen) (hdot : s.front.kind ≠ .delimiter .dot)
    (hnode : parameter r s = .ok node v) (hcomma : v.front.kind ≠ .delimiter .comma) :
    parameterList r s = .ok [node] v := by
  have hround : parameterRound r [] s = .ok (.done [node]) v := by
    rw [parameterRound_of_ok hdot hnode, if_neg hcomma]
  rw [parameterList_eq_parameters hclose fun h => hsecond h.2]
  show (loop (parameterRound r) [] >>= fun found => pure found.reverse) s = _
  rw [bind_apply, loop_done hround]
  rfl

/-- A declarator fails where no parenthesis closes its parameters. -/
theorem declarator_of_unclosed {r : Rules} {n : Nat} {found : List Node} {u : State}
    (hn : pointers s = .ok n v) (hk : v.front.kind = .identifier)
    (hleft : v.dropFront.front.kind = .delimiter .leftParen)
    (hlist : parameterList r v.dropFront.dropFront = .ok found u)
    (hright : u.front.kind ≠ .delimiter .rightParen) :
    declarator r s = .error ⟨.expected (.delimiter .rightParen) .afterParameters u.front,
      u.front.location⟩ u := by
  simp only [declarator, bind_apply, hn, frontKind_apply, if_pos hk, takeFront_apply, accept_apply,
    if_pos hleft, if_true, hlist, requireMark, require_apply, if_neg hright]

/-- A function behind a type is declared, if a semicolon follows it. -/
theorem declaration_of_function {r : Rules} {type : TypeSpecifier} {d : Declarator} {u : State}
    (htype : typeSpecifier r s = .ok type u)
    (hstruct : ∀ node ∈ type.structNode, node.kind = .structDeclaration)
    (hk : u.front.kind ≠ .delimiter .semicolon) (hd : declarator r u = .ok d v)
    (hfunction : d.declaresFunction = true) (hend : v.front.kind = .delimiter .semicolon) :
    declaration r s =
      .ok [.texted .functionDeclaration (d.wholeType type.text) s.front.location [d.node]]
        v.dropFront := by
  have hnode : declared r s.front.location (d.wholeType type.text) d none v =
      .ok (.texted .functionDeclaration (d.wholeType type.text) s.front.location [d.node]) v := by
    simp only [declared, if_pos hfunction, Option.toList_none, pure_apply]
  have hround : nameRound r s.front.location type none ⟨[], false⟩ u = _ :=
    nameRound_of_declared hd (fun _ => by simp [hend]) hnode
  rw [if_neg (by simp [hend])] at hround
  have hnames : declaredNames r s.front.location type none u = _ := loop_done hround
  rw [declaration_of_typeSpecifier htype hstruct hk]
  simp only [bind_apply, hnames, Bool.false_eq_true, if_false, requireMark, require_apply,
    if_pos hend, pure_apply, List.reverse_singleton]

/-- A declaration fails where the declarator behind its type fails. -/
theorem declaration_of_failed {r : Rules} {type : TypeSpecifier} {failure : Failure} {u : State}
    (htype : typeSpecifier r s = .ok type u)
    (hstruct : ∀ node ∈ type.structNode, node.kind = .structDeclaration)
    (hk : u.front.kind ≠ .delimiter .semicolon) (hd : declarator r u = .error failure v) :
    declaration r s = .error failure v := by
  have hround : nameRound r s.front.location type none ⟨[], false⟩ u = .error failure v := by
    simp only [nameRound, bind_apply, hd]
  have hnames : declaredNames r s.front.location type none u = .error failure v :=
    loop_failed hround
  rw [declaration_of_typeSpecifier htype hstruct hk]
  simp only [bind_apply, hnames]

section Levels

variable {m n : Nat} {type : String} {ts p dims : List Word} {name : Word} {sizes : List Node}

/-- Neither the first word of a parameter nor the second one closes the list. -/
theorem second_kind_of_parameter (hts : NamesSpecifier (· = []) type ts) (hp : PointerWords p)
    (hname : name.1 = .identifier) (hs : s.script = ts ++ (p ++ name :: rest)) :
    s.second.kind ≠ .delimiter .rightParen := by
  have hnone : ∀ w ∈ ts ++ (p ++ [name]), w.1 ≠ .delimiter .rightParen := by
    refine List.forall_mem_append.mpr ⟨fun w hw => hts.ne_delimiter w hw _, ?_⟩
    refine List.forall_mem_append.mpr ⟨?_, by simp [hname]⟩
    clear hs
    induction hp with
    | none => simp
    | star hw hqualifiers _ ih =>
        refine List.forall_mem_cons.mpr ⟨by simp [hw], List.forall_mem_append.mpr ⟨?_, ih⟩⟩
        rintro q hq hclose
        have hqualifier := hqualifiers q hq
        rw [hclose] at hqualifier
        contradiction
  obtain ⟨w, ts', rfl, -⟩ := (NamesType.plain hts).head
  rw [List.cons_append] at hs hnone
  obtain ⟨second, more, hmore⟩ : ∃ second more, ts' ++ (p ++ [name]) = second :: more :=
    List.exists_cons_of_ne_nil (by simp)
  have htail : ts' ++ (p ++ name :: rest) = second :: (more ++ rest) := by
    simpa using congrArg (· ++ rest) hmore
  rw [State.second_kind hs, htail]
  rw [hmore] at hnone
  exact hnone second (by simp)

/-- The parameter of a function is read with its whole type and its name, where no qualifier stands
among its stars. Otherwise the parameters end at the first qualifier. -/
theorem parameterList_of_words {e : Word} (hts : NamesSpecifier (· = []) type ts)
    (hp : PointerWords p) (hname : name.1 = .identifier)
    (hsizes : Dimensions (ExpressionWithin n) sizes dims) (he : e.1 = .delimiter .rightParen)
    (hs : s.script = ts ++ (p ++ name :: (dims ++ e :: rest))) (hn : n ≤ m + 1)
    (hroom : s.depth + n ≤ s.limit) :
    ∃ node v, parameterList (.level (m + 1)) s = .ok [node] v ∧
      ((∀ w ∈ p, w.1 = .operator .star) ∧ s.Past (e :: rest) 0 v ∧
          node.unplaced = .texted .parameter (type ++ starsText (starCount p) ++ sizesText sizes)
            .start [.texted .identifier name.2 .start []] ∨
        (∃ q ∈ p, q.1.isQualifier = true) ∧ v.front.kind.isQualifier = true) := by
  have hbodies := readsBodies (m + 1)
  have hopens : s.front.kind.startsType = true := by
    obtain ⟨w, ts', rfl, hw⟩ := (NamesType.plain hts).head
    rwa [front_kind_of_script hs]
  have hclose : s.front.kind ≠ .delimiter .rightParen := by
    rintro hclose
    rw [hclose] at hopens
    contradiction
  have hdot : s.front.kind ≠ .delimiter .dot := by
    rintro hdot
    rw [hdot] at hopens
    contradiction
  have hsecond := second_kind_of_parameter hts hp hname hs
  have hhead : headKind (p ++ name :: (dims ++ e :: rest)) = .operator .star ∨
      headKind (p ++ name :: (dims ++ e :: rest)) = .identifier := by
    cases hp with
    | none => exact .inr hname
    | star hw => exact .inl hw
  obtain ⟨base, u, hbase, rfl, -, hpast⟩ := typeSpecifier_of_bodiless m hts hs
    (by rcases hhead with hhead | hhead <;> rw [hhead] <;> rfl)
    (by rcases hhead with hhead | hhead <;> simp [hhead])
  rcases hp.split with hstars | ⟨stars, q, more, rfl, -, hstars, hq⟩
  · obtain ⟨v, hv, hpast'⟩ := typeName_of_typeSpecifier hbase hpast hstars (by simp [hname])
    obtain ⟨node, w, hnode, htree, hpast''⟩ := parameter_of_named hbodies hopens hv hpast' hname
      hsizes (by simp [he]) hn hroom
    have hcomma : w.front.kind ≠ .delimiter .comma := by
      rw [front_kind_of_cons hpast''.script he]
      simp
    refine ⟨node, w, parameterList_of_parameter hclose hsecond hdot hnode hcomma,
      .inl ⟨hstars, hpast'', ?_⟩⟩
    rw [htree, starCount_of_stars hstars]
  · rw [List.append_assoc] at hpast
    have hqualifier : ∀ k : Token.Kind, k.isQualifier = false → q.1 ≠ k := by
      rintro k hk rfl
      rw [hq] at hk
      contradiction
    obtain ⟨v, hv, hpast'⟩ :=
      typeName_of_typeSpecifier hbase hpast hstars (hqualifier _ rfl)
    have hbehind : s.Past ([] ++ q :: (more ++ name :: (dims ++ e :: rest))) 0 v := hpast'
    obtain ⟨w, hw, hpast''⟩ := parameter_of_unnamed hbodies hopens hv hbehind (hqualifier _ rfl)
      .none (hqualifier _ rfl) hn hroom
    have hk : w.front.kind = q.1 := front_kind_of_cons hpast''.script rfl
    refine ⟨_, w, parameterList_of_parameter hclose hsecond hdot hw ?_,
      .inr ⟨⟨q, by simp, hq⟩, by rwa [hk]⟩⟩
    rw [hk]
    exact hqualifier _ rfl

/-- A function with the parameter is declared, or its declaration fails. -/
theorem declaration_of_words {k f o e c : Word} (hts : NamesSpecifier (· = []) type ts)
    (hp : PointerWords p) (hname : name.1 = .identifier)
    (hsizes : Dimensions (ExpressionWithin n) sizes dims) (hk : k.1 = .keyword .voidKw)
    (hf : f.1 = .identifier) (ho : o.1 = .delimiter .leftParen)
    (he : e.1 = .delimiter .rightParen) (hc : c.1 = .delimiter .semicolon)
    (hs : s.script = k :: f :: o :: (ts ++ (p ++ name :: (dims ++ e :: c :: rest))))
    (hn : n ≤ m + 1) (hroom : s.depth + n ≤ s.limit) :
    (∀ w ∈ p, w.1 = .operator .star) ∧
        (∃ node v, declaration (.level (m + 1)) s = .ok [node] v ∧ s.Past rest 0 v ∧
          node.kind = .functionDeclaration ∧ node.parameterEntries =
            [⟨type ++ starsText (starCount p) ++ sizesText sizes, some name.2⟩]) ∨
      (∃ q ∈ p, q.1.isQualifier = true) ∧
        ∃ failure v, declaration (.level (m + 1)) s = .error failure v := by
  have hvoid : NamesSpecifier (· = []) k.spelling [k] := by
    have hbase : NamesBase (· = []) [k.spelling] [k] := .base (by rw [hk]; rfl)
    have hmodifiers : ∀ w ∈ ([] : List Word), w.1.isTypeModifier = true := by simp
    simpa using NamesSpecifier.intro hmodifiers hbase (by simp)
  have hs' : s.script = [k] ++ f :: o :: (ts ++ (p ++ name :: (dims ++ e :: c :: rest))) := hs
  obtain ⟨base, u, hbase, -, hstruct, hpast⟩ := typeSpecifier_of_bodiless m hvoid hs'
    (by rw [headKind_cons, hf]; rfl) (by simp [hf])
  have hsemicolon : u.front.kind ≠ .delimiter .semicolon := by
    rw [front_kind_of_cons hpast.script hf]
    simp
  obtain ⟨v, hstars, rfl, hpast'⟩ := declarator_name .none hf hpast.script
  have hleft : v.dropFront.front.kind = .delimiter .leftParen :=
    front_kind_of_cons hpast'.script ho
  have hopen := (hpast.trans hpast').trans (.dropFront hpast'.script)
  obtain ⟨node, w, hlist, ⟨hall, hpast'', htree⟩ | ⟨hsome, hqualifier⟩⟩ :=
    parameterList_of_words hts hp hname hsizes he hopen.script hn (hopen.room hroom)
  · have hright : w.front.kind = .delimiter .rightParen := front_kind_of_cons hpast''.script he
    have hd := declarator_of_parameterList hstars hf hleft hlist hright
    have hclose := (hopen.trans hpast'').trans (.dropFront hpast''.script)
    refine .inl ⟨hall, _, _, declaration_of_function hbase hstruct hsemicolon hd rfl
      (front_kind_of_cons hclose.script hc), hclose.trans (.dropFront hclose.script), rfl, ?_⟩
    have hkind : node.kind = .parameter := by
      rw [← Node.unplaced_kind, htree]
      rfl
    rw [Node.parameterEntries_of_parameter _ _ _ _ _ hkind, ← Node.parameterEntry_unplaced, htree]
    rfl
  · have hright : w.front.kind ≠ .delimiter .rightParen := by
      rintro hright
      rw [hright] at hqualifier
      contradiction
    have hd := declarator_of_unclosed hstars hf hleft hlist hright
    exact .inr ⟨hsome, _, w, declaration_of_failed hbase hstruct hsemicolon hd⟩

end Levels

/-! ## Whole files -/

section

variable {tokens : List Token} {options : ParseSettings} {type : String}
  {ts p dims : List Word} {name : Word} {sizes : List Node}

/-- A variable is read with its whole type, whatever qualifiers stand among its stars. -/
theorem declaresVariable (hts : NamesSpecifier (· = []) type ts) (hp : PointerWords p)
    (hname : name.1 = .identifier)
    (hsizes : Dimensions (ExpressionWithin options.maxNesting) sizes dims)
    (h : HasWords tokens (variableWords ts p name dims)) :
    (parse tokens options).DeclaresVariable
      (type ++ starsText (starCount p) ++ sizesText sizes) := by
  obtain ⟨nodes, warnings, hparse, htrees⟩ :=
    h.parse_variables hts (.last (.plain hp hname hsizes)) rfl
  obtain ⟨node, rfl, hnode⟩ := List.map_eq_singleton_iff.mp htrees
  rw [hparse]
  refine ⟨rfl, node, rfl, ?_, ?_⟩
  · rw [← Node.unplaced_kind, hnode]
    rfl
  · have htext : node.text? = node.unplaced.text? := by simp [Node.text?]
    rw [htext, hnode]
    rfl

/-- A parameter is read with its whole type exactly where no qualifier stands among its stars. -/
theorem declaresParameter_iff (hts : NamesSpecifier (· = []) type ts) (hp : PointerWords p)
    (hname : name.1 = .identifier)
    (hsizes : Dimensions (ExpressionWithin options.maxNesting) sizes dims)
    (h : HasWords tokens (functionWords ts p name dims)) (whole : String) :
    (parse tokens options).DeclaresParameter ⟨whole, some name.2⟩ ↔
      (∀ w ∈ p, w.1.isQualifier = false) ∧
        whole = type ++ starsText (starCount p) ++ sizesText sizes := by
  let n := min options.maxNesting dims.length
  have hwithin : Dimensions (ExpressionWithin n) sizes dims :=
    hsizes.mono fun e es hle hes => ⟨hes.1, Nat.le_min.mpr ⟨hes.2, hle⟩⟩
  have hlength := h.length_le
  simp only [functionWords, List.length_cons, List.length_append] at hlength
  have hscript := h.script_flush options.maxNesting
  have hopens : (Progress.start tokens options.maxNesting).flush.state.front.kind.startsType =
      true := by
    rw [front_kind_of_script hscript]
    rfl
  have hgoes := h.rest_ne_nil (by simp [functionWords]) options.maxNesting
  rcases declaration_of_words (m := 2 * (State.ofTokens tokens 0).rest.length + 1) hts hp hname
    hwithin rfl rfl rfl rfl rfl hscript (by omega) (by show 0 + n ≤ options.maxNesting; omega) with
    ⟨hstars, node, v, hnode, hpast, hkind, hentries⟩ | ⟨⟨q, hq, hqualifier⟩, failure, v, hfailed⟩
  · obtain ⟨warnings, hparse⟩ := h.parse_eq (by simp [functionWords])
      ((item_of_startsType hopens).trans hnode) hpast.script
    have hnone : ∀ w ∈ p, w.1.isQualifier = false := by
      intro w hw
      rw [hstars w hw]
      rfl
    rw [hparse]
    refine ⟨?_, ?_⟩
    · rintro ⟨-, other, hother, -, hsame⟩
      obtain rfl := List.singleton_inj.mp (hother : [node] = [other])
      rw [hentries] at hsame
      simp only [List.cons.injEq, ParameterEntry.mk.injEq, and_true] at hsame
      exact ⟨hnone, hsame.symm⟩
    · rintro ⟨-, rfl⟩
      exact ⟨rfl, node, rfl, hkind, hentries⟩
  · have hdirty : (parse tokens options).isClean = false :=
      (Progress.Reads.refl _).isClean_eq_false hgoes ((item_of_startsType hopens).trans hfailed)
    refine ⟨?_, ?_⟩
    · rintro ⟨hclean, -⟩
      rw [hdirty] at hclean
      contradiction
    · rintro ⟨hnone, -⟩
      rw [hnone q hq] at hqualifier
      contradiction

end

end Grammar

open Grammar

/-- A variable is always read with its whole type. The parameter that is written with the same words
is read with that type and the same name exactly where no qualifier stands among the stars, and
otherwise the function is not read at all. -/
theorem variable_parameter_agree_iff {tokens tokens' : List Token} {options : ParseSettings}
    {type : String} {ts p dims : List Word} {name : Word} {sizes : List Node}
    (hts : NamesSpecifier (· = []) type ts) (hp : PointerWords p) (hname : name.1 = .identifier)
    (hsizes : Dimensions (ExpressionWithin options.maxNesting) sizes dims)
    (hvariable : HasWords tokens (variableWords ts p name dims))
    (hfunction : HasWords tokens' (functionWords ts p name dims)) :
    (parse tokens options).DeclaresVariable
        (type ++ starsText (starCount p) ++ sizesText sizes) ∧
      ((∀ s, (parse tokens options).DeclaresVariable s ↔
          (parse tokens' options).DeclaresParameter ⟨s, some name.2⟩) ↔
        ∀ w ∈ p, w.1.isQualifier = false) := by
  have hread := declaresVariable hts hp hname hsizes hvariable
  have hunique : ∀ s, (parse tokens options).DeclaresVariable s →
      s = type ++ starsText (starCount p) ++ sizesText sizes := by
    rintro s ⟨-, node, hnode, -, htext⟩
    obtain ⟨-, other, hother, -, hwhole⟩ := hread
    obtain rfl := List.singleton_inj.mp (hnode.symm.trans hother)
    exact Option.some.inj (htext.symm.trans hwhole)
  refine ⟨hread, ⟨fun hall => ?_, fun hnone s => ?_⟩⟩
  · exact ((declaresParameter_iff hts hp hname hsizes hfunction _).mp ((hall _).mp hread)).1
  · rw [declaresParameter_iff hts hp hname hsizes hfunction]
    exact ⟨fun hs => ⟨hnone, hunique s hs⟩, fun hs => hs.2 ▸ hread⟩

/-- A variable `unsigned *p[n];` and the parameter of `void f(unsigned *p[n]);`. -/
theorem variable_parameter_agree_array :
    let ts : List Word := [(.keyword .unsignedKw, "unsigned")]
    let p : List Word := [operatorWord .star]
    let name : Word := (.identifier, "p")
    let size : Node := .texted .identifier "n" .start []
    let dims : List Word :=
      [delimiterWord .leftBracket, (.identifier, "n"), delimiterWord .rightBracket]
    let tokens : List Token := [⟨.keyword .unsignedKw, "unsigned", ⟨1, 1⟩⟩,
      ⟨.operator .star, "*", ⟨1, 10⟩⟩, ⟨.identifier, "p", ⟨1, 11⟩⟩,
      ⟨.delimiter .leftBracket, "[", ⟨1, 12⟩⟩, ⟨.identifier, "n", ⟨1, 13⟩⟩,
      ⟨.delimiter .rightBracket, "]", ⟨1, 14⟩⟩, ⟨.delimiter .semicolon, ";", ⟨1, 15⟩⟩,
      .endOfInput ⟨1, 16⟩]
    let tokens' : List Token := [⟨.keyword .voidKw, "void", ⟨1, 1⟩⟩, ⟨.identifier, "f", ⟨1, 6⟩⟩,
      ⟨.delimiter .leftParen, "(", ⟨1, 7⟩⟩, ⟨.keyword .unsignedKw, "unsigned", ⟨1, 8⟩⟩,
      ⟨.operator .star, "*", ⟨1, 17⟩⟩, ⟨.identifier, "p", ⟨1, 18⟩⟩,
      ⟨.delimiter .leftBracket, "[", ⟨1, 19⟩⟩, ⟨.identifier, "n", ⟨1, 20⟩⟩,
      ⟨.delimiter .rightBracket, "]", ⟨1, 21⟩⟩, ⟨.delimiter .rightParen, ")", ⟨1, 22⟩⟩,
      ⟨.delimiter .semicolon, ";", ⟨1, 23⟩⟩, .endOfInput ⟨1, 24⟩]
    NamesSpecifier (· = []) "unsigned" ts ∧ PointerWords p ∧
      Dimensions (ExpressionWithin 48) [size] dims ∧
      HasWords tokens (variableWords ts p name dims) ∧
      HasWords tokens' (functionWords ts p name dims) ∧
      (parse tokens {}).DeclaresVariable "unsigned*[n]" ∧
      (parse tokens' {}).DeclaresParameter ⟨"unsigned*[n]", some "p"⟩ := by
  intro ts p name size dims tokens tokens'
  have hmodifiers : ∀ w ∈ ts, w.1.isTypeModifier = true := by decide
  have hts : NamesSpecifier (· = []) "unsigned" ts := .intro hmodifiers .absent (by decide)
  have hnone : ∀ q ∈ ([] : List Word), q.1.isQualifier = true := by simp
  have hp : PointerWords p := .star rfl hnone .none
  have hsize : Derives (NamesType StructWords) .primary size [(.identifier, "n")] :=
    .identifier (w := (.identifier, "n")) rfl
  have hwithin : ExpressionWithin 48 size [(.identifier, "n")] :=
    ⟨hsize.toExpression nofun, by decide⟩
  have hsizes : Dimensions (ExpressionWithin ({} : ParseSettings).maxNesting) [size] dims :=
    .size rfl rfl hwithin .none
  have hvariable : HasWords tokens (variableWords ts p name dims) := ⟨rfl, by decide⟩
  have hfunction : HasWords tokens' (functionWords ts p name dims) := ⟨rfl, by decide⟩
  obtain ⟨hread, hiff⟩ := variable_parameter_agree_iff hts hp rfl hsizes hvariable hfunction
  exact ⟨hts, hp, hsizes, hvariable, hfunction, hread, (hiff.mpr (by decide) _).mp hread⟩

/-- The variable of `int *const p;` is read, and the parameter of `void f(int *const p);` is not. -/
theorem variable_parameter_not_agree :
    let ts : List Word := [(.keyword .intKw, "int")]
    let p : List Word := [operatorWord .star, (.keyword .constKw, "const")]
    let name : Word := (.identifier, "p")
    let tokens : List Token := [⟨.keyword .intKw, "int", ⟨1, 1⟩⟩, ⟨.operator .star, "*", ⟨1, 5⟩⟩,
      ⟨.keyword .constKw, "const", ⟨1, 6⟩⟩, ⟨.identifier, "p", ⟨1, 12⟩⟩,
      ⟨.delimiter .semicolon, ";", ⟨1, 13⟩⟩, .endOfInput ⟨1, 14⟩]
    let tokens' : List Token := [⟨.keyword .voidKw, "void", ⟨1, 1⟩⟩, ⟨.identifier, "f", ⟨1, 6⟩⟩,
      ⟨.delimiter .leftParen, "(", ⟨1, 7⟩⟩, ⟨.keyword .intKw, "int", ⟨1, 8⟩⟩,
      ⟨.operator .star, "*", ⟨1, 12⟩⟩, ⟨.keyword .constKw, "const", ⟨1, 13⟩⟩,
      ⟨.identifier, "p", ⟨1, 19⟩⟩, ⟨.delimiter .rightParen, ")", ⟨1, 20⟩⟩,
      ⟨.delimiter .semicolon, ";", ⟨1, 21⟩⟩, .endOfInput ⟨1, 22⟩]
    HasWords tokens (variableWords ts p name []) ∧ HasWords tokens' (functionWords ts p name []) ∧
      (parse tokens {}).DeclaresVariable "int*" ∧
      (parse tokens' {}).diagnostics =
        ["Parse error at line 1, column 13: Expected ')' after parameters, found 'const'"] ∧
      ∀ type, ¬(parse tokens' {}).DeclaresParameter ⟨type, some "p"⟩ := by
  intro ts p name tokens tokens'
  have hvariable : (parse tokens {}).root.children = [.texted .variableDeclaration "int*" ⟨1, 1⟩
      [.texted .variableDeclarator "p" ⟨1, 12⟩ []]] := by decide +kernel
  have hclean : (parse tokens {}).isClean = true := by decide +kernel
  have herrors : (parse tokens' {}).diagnostics =
      ["Parse error at line 1, column 13: Expected ')' after parameters, found 'const'"] := by
    decide +kernel
  refine ⟨⟨rfl, by decide⟩, ⟨rfl, by decide⟩, ⟨hclean, _, hvariable, rfl, rfl⟩, herrors, ?_⟩
  rintro type ⟨hclean', -⟩
  rw [Parsed.isClean, herrors] at hclean'
  contradiction

end CSurvey
