import CSurvey.Proofs.Declaration.Bodies
import CSurvey.Proofs.Grammar.Limits
import CSurvey.Proofs.Members.Completeness

/-! # Declarations of variables

A type, variables with commas between them and a semicolon are read as the variables, each with its
own stars, array sizes and initial value. -/

namespace CSurvey

open Grammar (starCount sizesText)

/-! ## Variables -/

/-- A variable as it is declared behind a type. -/
structure Variable where
  /-- The number of stars before the name. -/
  stars : Nat
  name : String
  /-- The trees of the array sizes behind the name. -/
  sizes : List Node
  /-- The tree of the initial value, if there is one. -/
  value : Option Node

namespace Variable

/-- The type of a variable, if the type before all variables is `base`. -/
def type (x : Variable) (base : String) : String :=
  base ++ starsText x.stars ++ sizesText x.sizes

/-- The node of a variable, without places. -/
def node (x : Variable) (base : String) : Node :=
  .texted .variableDeclaration (x.type base) .start
    (.texted .variableDeclarator x.name .start x.sizes :: x.value.toList)

end Variable

/-- The words of a variable. `Value` says which words are a size or an initial value of a given
tree. -/
inductive VariableWords (Value : Node → List Word → Prop) : Variable → List Word → Prop where
  | plain {name : Word} {stars dims : List Word} {sizes : List Node} (hstars : PointerWords stars)
      (hname : name.1 = .identifier) (hsizes : Dimensions Value sizes dims) :
      VariableWords Value ⟨starCount stars, name.2, sizes, none⟩ (stars ++ name :: dims)
  | initialized {name o : Word} {stars dims es : List Word} {sizes : List Node} {e : Node}
      (hstars : PointerWords stars) (hname : name.1 = .identifier)
      (hsizes : Dimensions Value sizes dims) (ho : o.1 = .operator .assign) (hes : Value e es) :
      VariableWords Value ⟨starCount stars, name.2, sizes, some e⟩
        (stars ++ name :: (dims ++ o :: es))

/-- The words of one or more variables, with commas between them. -/
inductive VariablesWords (Value : Node → List Word → Prop) :
    List Variable → List Word → Prop where
  | last {x : Variable} {ws : List Word} :
      VariableWords Value x ws → VariablesWords Value [x] ws
  | more {x : Variable} {xs : List Variable} {c : Word} {ws us : List Word}
      (hc : c.1 = .delimiter .comma) :
      VariableWords Value x ws → VariablesWords Value xs us →
      VariablesWords Value (x :: xs) (ws ++ c :: us)

section Mono

variable {Value Value' : Node → List Word → Prop} {ws : List Word}

theorem VariableWords.mono {x : Variable} (h : VariableWords Value x ws)
    (hvalue : ∀ e es, es.length ≤ ws.length → Value e es → Value' e es) :
    VariableWords Value' x ws := by
  cases h with
  | plain hstars hname hsizes =>
      refine .plain hstars hname (hsizes.mono fun e es hle => hvalue e es ?_)
      simp only [List.length_append, List.length_cons]
      omega
  | initialized hstars hname hsizes ho hes =>
      simp only [List.length_append, List.length_cons] at hvalue
      exact .initialized hstars hname (hsizes.mono fun e es hle => hvalue e es (by omega)) ho
        (hvalue _ _ (by omega) hes)

theorem VariablesWords.mono {xs : List Variable} (h : VariablesWords Value xs ws)
    (hvalue : ∀ e es, es.length ≤ ws.length → Value e es → Value' e es) :
    VariablesWords Value' xs ws := by
  induction h with
  | last h => exact .last (h.mono hvalue)
  | more hc h _ ih =>
      simp only [List.length_append, List.length_cons] at hvalue
      exact .more hc (h.mono fun e es hle => hvalue e es (by omega))
        (ih fun e es hle => hvalue e es (by omega))

end Mono

/-- The words of a variable open with a star or its name. -/
theorem VariableWords.head {Value : Node → List Word → Prop} {x : Variable} {ws : List Word}
    (h : VariableWords Value x ws) :
    ∃ w us, ws = w :: us ∧ (w.1 = .operator .star ∨ w.1 = .identifier) := by
  have hhead : ∀ {stars us : List Word} {name : Word}, PointerWords stars →
      name.1 = .identifier → ∃ w vs, stars ++ name :: us = w :: vs ∧
        (w.1 = .operator .star ∨ w.1 = .identifier) := by
    intro stars us name hstars hname
    cases hstars with
    | none => exact ⟨_, _, rfl, .inr hname⟩
    | star hw => exact ⟨_, _, rfl, .inl hw⟩
  cases h with
  | plain hstars hname => exact hhead hstars hname
  | initialized hstars hname => exact hhead hstars hname

theorem VariablesWords.head {Value : Node → List Word → Prop} {xs : List Variable}
    {ws : List Word} (h : VariablesWords Value xs ws) :
    ∃ w us, ws = w :: us ∧ (w.1 = .operator .star ∨ w.1 = .identifier) := by
  cases h with
  | last h => exact h.head
  | more _ h _ =>
      obtain ⟨w, us, rfl, hw⟩ := h.head
      exact ⟨w, _, rfl, hw⟩

namespace Grammar

variable {s v : State} {ws rest : List Word}

/-! ## One name -/

/-- A name that is no function definition is read as a node, and a comma goes on. -/
theorem nameRound_of_declared {r : Rules} {location : Position} {type : TypeSpecifier}
    {names : DeclaredNames} {d : Declarator} {node : Node} {u : State}
    (hd : declarator r s = .ok d u)
    (hbody : d.declaresFunction = true → u.front.kind ≠ .delimiter .leftBrace)
    (hnode : declared r location (d.wholeType type.text) d none u = .ok node v) :
    nameRound r location type none names s =
      if v.front.kind = .delimiter .comma then .ok (.again ⟨node :: names.nodes, false⟩) v.dropFront
      else .ok (.done ⟨node :: names.nodes, false⟩) v := by
  have hcode : ¬(d.declaresFunction && u.front.kind = .delimiter .leftBrace) = true := by
    simpa using hbody
  rw [nameRound, ite_self, bind_apply, hd]
  dsimp only
  rw [bind_apply, frontKind_apply]
  dsimp only
  rw [if_neg hcode, bind_apply, hnode]
  exact accept_ite_apply _ _ _ v

/-- Behind a type without the body of a struct, a declaration goes on with its names. -/
theorem declaration_of_typeSpecifier {r : Rules} {type : TypeSpecifier}
    {u : State} (htype : typeSpecifier r s = .ok type u)
    (hstruct : ∀ node ∈ type.structNode, node.kind = .structDeclaration)
    (hk : u.front.kind ≠ .delimiter .semicolon) :
    declaration r s = (do
      let names ← declaredNames r s.front.location type none
      if names.closed then pure names.nodes.reverse
      else
        let _ ← requireMark .semicolon .afterDeclaration
        pure names.nodes.reverse) u := by
  have hnone : type.structNode.filter (fun n => n.kind = .structDefinition) = none := by
    rw [Option.filter_eq_none_iff]
    intro node hnode
    simp [hstruct node hnode]
  simp only [declaration, bind_apply, here_apply, htype, accept_apply, if_neg hk,
    Bool.false_eq_true, if_false, hnone]

section Levels

variable {m n : Nat} {x : Variable} {xs : List Variable} (location : Position)
  (type : TypeSpecifier)

/-- The words of a variable are read as its node. -/
theorem nameRound_of_variable {d : Token.Delimiter} (names : DeclaredNames)
    (h : VariableWords (ExpressionWithin n) x ws) (hs : s.script = ws ++ rest)
    (hrest : headKind rest = .delimiter d) (hd : d = .comma ∨ d = .semicolon) (hn : n ≤ m + 1)
    (hroom : s.depth + n ≤ s.limit) :
    ∃ node v, node.unplaced = x.node type.text ∧ s.Past rest 0 v ∧
      nameRound (.level (m + 1)) location type none names s =
        if v.front.kind = .delimiter .comma then
          .ok (.again ⟨node :: names.nodes, false⟩) v.dropFront
        else .ok (.done ⟨node :: names.nodes, false⟩) v := by
  have hbodies := readsBodies (m + 1)
  have hmark : d ≠ .leftParen ∧ d ≠ .leftBracket ∧ d ≠ .dot := by
    rcases hd with rfl | rfl <;> simp
  -- A declarator with stars and sizes declares no function, and has the whole type.
  have hwhole : ∀ {a : Declarator} {name : String} {stars : Nat} {sizes : List Node}
      (value : Option Node), a.node.unplaced = .texted .variableDeclarator name .start sizes →
      a.stars = stars → a.sizes = sizes.map Node.render →
      a.declaresFunction = false ∧
        a.wholeType type.text = Variable.type ⟨stars, name, sizes, value⟩ type.text := by
    rintro a name stars sizes value hnode rfl hsizes
    refine ⟨?_, ?_⟩
    · rw [Declarator.declaresFunction, ← Node.unplaced_kind, hnode]
      rfl
    · rw [Declarator.wholeType, Variable.type, hsizes, sizesText, starsText, List.map_map]
      rfl
  cases h with
  | @plain name stars dims sizes hstars hname hsizes =>
      have hs' : s.script = stars ++ name :: (dims ++ rest) := by simpa using hs
      obtain ⟨a, u, ha, hnode, hcount, hsizes', hpast⟩ := declarator_of_object hbodies hstars hname
        hsizes hs' (by simpa [hrest] using hmark.1) (by simpa [hrest] using hmark.2.1) hn hroom
      obtain ⟨hobject, htype⟩ := hwhole none hnode hcount hsizes'
      have hk : u.front.kind ≠ .operator .assign := by
        rw [front_kind_of_script hpast.script, hrest]
        simp
      refine ⟨.texted .variableDeclaration (a.wholeType type.text) location [a.node], u, ?_, hpast,
        nameRound_of_declared ha (by simp [hobject]) ?_⟩
      · rw [Node.unplaced_texted, htype, List.map_singleton, hnode]
        rfl
      · simp only [declared, hobject, Bool.false_eq_true, if_false, bind_apply, accept_apply,
          if_neg hk, pure_apply, Option.toList_none]
  | @initialized name o stars dims es sizes e hstars hname hsizes ho hes =>
      have hs' : s.script = stars ++ name :: (dims ++ o :: (es ++ rest)) := by simpa using hs
      obtain ⟨a, u, ha, hnode, hcount, hsizes', hpast⟩ := declarator_of_object hbodies hstars hname
        hsizes hs' (by simp [ho]) (by simp [ho]) hn hroom
      obtain ⟨hobject, htype⟩ := hwhole (some e) hnode hcount hsizes'
      have hk : u.front.kind = .operator .assign := front_kind_of_cons hpast.script ho
      have hdrop := hpast.trans (.dropFront hpast.script)
      have hbrace : u.dropFront.front.kind ≠ .delimiter .leftBrace := by
        obtain ⟨w, es', rfl, hw⟩ := hes.1.head
        rw [front_kind_of_script hdrop.script, List.cons_append, headKind_cons]
        rintro hbrace
        rw [hbrace] at hw
        contradiction
      obtain ⟨value, v, hvalue, rfl, hpast'⟩ := expression_before_mark hbodies hes hrest hmark
        hdrop.script hn (hdrop.room hroom)
      have hinitial : initializer (.level (m + 1)) u.dropFront = .ok value v := by
        simp only [initializer, bind_apply, frontKind_apply, if_neg hbrace, hvalue]
      refine ⟨.texted .variableDeclaration (a.wholeType type.text) location [a.node, value], v, ?_,
        hdrop.trans hpast', nameRound_of_declared ha (by simp [hobject]) ?_⟩
      · rw [Node.unplaced_texted, htype, List.map_cons, List.map_singleton, hnode]
        rfl
      · simp only [declared, hobject, Bool.false_eq_true, if_false, bind_apply, accept_apply,
          if_pos hk, if_true, hinitial, pure_apply, Option.toList_none]

/-! ## All names -/

/-- The words of several variables are read as their nodes, latest first. -/
theorem turns_nameRound (names : DeclaredNames) (h : VariablesWords (ExpressionWithin n) xs ws)
    (hs : s.script = ws ++ rest) (hrest : headKind rest = .delimiter .semicolon) (hn : n ≤ m + 1)
    (hroom : s.depth + n ≤ s.limit) :
    ∃ (nodes : List Node) (v : State), Turns (nameRound (.level (m + 1)) location type none) names
        s ⟨nodes.reverse ++ names.nodes, false⟩ v ∧
      nodes.map Node.unplaced = xs.map (·.node type.text) ∧ s.Past rest 0 v := by
  induction h generalizing s names with
  | @last x ws h =>
      obtain ⟨node, v, hnode, hpast, hround⟩ :=
        nameRound_of_variable location type names h hs hrest (.inr rfl) hn hroom
      have hk : v.front.kind ≠ .delimiter .comma := by
        rw [front_kind_of_script hpast.script, hrest]
        simp
      rw [if_neg hk] at hround
      exact ⟨[node], v, .done hround, by simp [hnode], hpast⟩
  | @more x xs c ws us hc h _ ih =>
      have hs' : s.script = ws ++ c :: (us ++ rest) := by simpa using hs
      have hhead : headKind (c :: (us ++ rest)) = .delimiter .comma := hc
      obtain ⟨node, v, hnode, hpast, hround⟩ :=
        nameRound_of_variable location type names h hs' hhead (.inl rfl) hn hroom
      rw [if_pos (front_kind_of_cons hpast.script hc)] at hround
      have hpast' := hpast.trans (.dropFront hpast.script)
      have hlt := Nat.lt_of_lt_of_le (State.open_of_script hpast.script).length_dropFront
        hpast.length
      obtain ⟨nodes, u, hturns, hnodes, hpast''⟩ :=
        ih ⟨node :: names.nodes, false⟩ hpast'.script (hpast'.room hroom)
      refine ⟨node :: nodes, u, .again hround hlt ?_, by simp [hnode, hnodes], hpast'.trans hpast''⟩
      simpa using hturns

/-! ## Declarations -/

/-- A type, variables and a semicolon are read as the nodes of the variables. -/
theorem declaration_of_variables {base : String} {ts us : List Word} {c : Word}
    (hts : NamesSpecifier (· = []) base ts) (hxs : VariablesWords (ExpressionWithin n) xs us)
    (hc : c.1 = .delimiter .semicolon) (hs : s.script = ts ++ (us ++ c :: rest)) (hn : n ≤ m + 1)
    (hroom : s.depth + n ≤ s.limit) :
    ∃ nodes v, declaration (.level (m + 1)) s = .ok nodes v ∧
      nodes.map Node.unplaced = xs.map (·.node base) ∧ s.Past rest 0 v := by
  have hhead : headKind (us ++ c :: rest) = .operator .star ∨
      headKind (us ++ c :: rest) = .identifier := by
    obtain ⟨w, us', rfl, hw⟩ := hxs.head
    exact hw
  obtain ⟨type, u, htype, rfl, hstruct, hpast⟩ := typeSpecifier_of_bodiless m hts hs
    (by rcases hhead with hhead | hhead <;> rw [hhead] <;> rfl)
    (by rcases hhead with hhead | hhead <;> simp [hhead])
  have hk : u.front.kind ≠ .delimiter .semicolon := by
    rw [front_kind_of_script hpast.script]
    rcases hhead with hhead | hhead <;> simp [hhead]
  obtain ⟨nodes, v, hturns, hnodes, hpast'⟩ := turns_nameRound s.front.location type
    ⟨[], false⟩ hxs hpast.script hc hn (hpast.room hroom)
  rw [List.append_nil] at hturns
  have hnames : declaredNames (.level (m + 1)) s.front.location type none u =
      .ok ⟨nodes.reverse, false⟩ v := hturns.loop_eq
  have hclose := require_of_script .afterDeclaration hpast'.script hc
  refine ⟨nodes, v.dropFront, ?_, hnodes, (hpast.trans hpast').trans (.dropFront hpast'.script)⟩
  rw [declaration_of_typeSpecifier htype hstruct hk]
  simp only [bind_apply, hnames, Bool.false_eq_true, if_false, requireMark, hclose, pure_apply,
    List.reverse_reverse]

end Levels

/-! ## Files of one item -/

/-- The tokens before the end of input are the words, perhaps with newlines between them. -/
structure HasWords (tokens : List Token) (ws : List Word) : Prop where
  script : (State.ofTokens tokens 0).script = ws
  uncommented : ∀ t ∈ tokens, t.kind.isComment = false

namespace HasWords

variable {tokens : List Token} {options : ParseSettings}

/-- The first item is read from the words. -/
theorem script_flush (h : HasWords tokens ws) (limit : Nat) :
    (Progress.start tokens limit).flush.state.script = ws :=
  (State.ofTokens tokens limit).script_takeComments.trans h.script

theorem rest_ne_nil (h : HasWords tokens ws) (hws : ws ≠ []) (limit : Nat) :
    (Progress.start tokens limit).flush.state.rest ≠ [] := by
  obtain ⟨w, more, rfl⟩ := List.exists_cons_of_ne_nil hws
  exact State.rest_ne_nil_of_script (h.script_flush limit)

/-- Where no comment is stepped over, none is set aside. -/
theorem comments_eq_nil (h : HasWords tokens ws) {given : List Node} (hacc : Accounts s v given)
    (hs : s.rest ⊆ (State.ofTokens tokens 0).rest) (hcomments : s.comments = []) :
    v.comments = [] := by
  obtain ⟨passed, hrest, hpassed⟩ := hacc
  have hnone : commentNodes passed = [] := by
    rw [commentNodes, List.map_eq_nil_iff, List.filter_eq_nil_iff]
    intro t ht
    have hmem := hs (hrest ▸ List.mem_append_left _ ht)
    rw [State.ofTokens_rest_eq] at hmem
    simp [h.uncommented t ((List.takeWhile_sublist _).subset hmem)]
  rw [hcomments, hnone, List.append_nil] at hpassed
  exact (List.append_eq_nil_iff.mp hpassed).2

/-- A file of one item is parsed as the nodes of the item. -/
theorem parse_eq {nodes : List Node} (h : HasWords tokens ws) (hws : ws ≠ [])
    (hitem : item (.forTokens (State.ofTokens tokens 0).rest)
      (Progress.start tokens options.maxNesting).flush.state = .ok nodes v)
    (hend : v.script = []) :
    ∃ warnings, parse tokens options = ⟨.plain .program .start nodes, [], warnings⟩ := by
  let p := Progress.start tokens options.maxNesting
  have hgoes : p.flush.state.rest ≠ [] := h.rest_ne_nil hws options.maxNesting
  let q : Progress := ⟨nodes.reverse ++ p.flush.nodes, [], v⟩
  have hreads : Progress.Reads (.forTokens (State.ofTokens tokens 0).rest) p q :=
    .item hgoes hitem (.refl q)
  have hlast : q.flush.state.rest = [] := State.upcoming_eq_nil (List.map_eq_nil_iff.mp hend)
  have hfirst : p.state.passTrivia.comments = [] :=
    h.comments_eq_nil (Accounts.passTrivia p.state) (List.Subset.refl _) rfl
  have hcomments : v.passTrivia.comments = [] := by
    have hwithin : p.flush.state.Within Anywhere :=
      Progress.flush_within (State.ofTokens_anywhere tokens options.maxNesting)
    obtain ⟨-, given, -, hacc⟩ := Carries.item (Rules.level_yields _) (Rules.level_carries _)
      hwithin hitem
    exact h.comments_eq_nil (hacc.trans (Accounts.passTrivia v))
      (List.dropWhile_suffix _).subset rfl
  have hnodes : q.flush.nodes = nodes.reverse := by
    show v.passTrivia.comments.reverse ++ (nodes.reverse ++
      (p.state.passTrivia.comments.reverse ++ [])) = _
    simp [hfirst, hcomments]
  refine ⟨q.flush.state.warnings.map SkippedMember.message, (hreads.parse_eq hlast).trans ?_⟩
  rw [Ending.parsed, hnodes, List.reverse_reverse]
  rfl

theorem length_le (h : HasWords tokens ws) : ws.length ≤ (State.ofTokens tokens 0).rest.length := by
  rw [← h.script]
  exact State.length_script_le _

/-- A file with one declaration of variables is parsed as their nodes, where there is room for each
size and each initial value. -/
theorem parse_variables {base : String} {ts us : List Word} {c : Word} {xs : List Variable}
    (h : HasWords tokens (ts ++ (us ++ [c]))) (hts : NamesSpecifier (· = []) base ts)
    (hxs : VariablesWords (ExpressionWithin options.maxNesting) xs us)
    (hc : c.1 = .delimiter .semicolon) :
    ∃ nodes warnings, parse tokens options = ⟨.plain .program .start nodes, [], warnings⟩ ∧
      nodes.map Node.unplaced = xs.map (·.node base) := by
  let n := min options.maxNesting us.length
  have hwithin : VariablesWords (ExpressionWithin n) xs us :=
    hxs.mono fun e es hle hes => ⟨hes.1, Nat.le_min.mpr ⟨hes.2, hle⟩⟩
  have hlength := h.length_le
  rw [List.length_append, List.length_append] at hlength
  have hscript := h.script_flush options.maxNesting
  obtain ⟨nodes, v, hnodes, htrees, hpast⟩ := declaration_of_variables
    (m := 2 * (State.ofTokens tokens 0).rest.length + 1) hts hwithin hc hscript (by omega)
    (by show 0 + n ≤ options.maxNesting; omega)
  have hopens : (Progress.start tokens options.maxNesting).flush.state.front.kind.startsType =
      true := by
    obtain ⟨w, ts', rfl, hw⟩ := (NamesType.plain hts).head
    rwa [front_kind_of_script hscript]
  obtain ⟨warnings, hparse⟩ :=
    h.parse_eq (by simp) ((item_of_startsType hopens).trans hnodes) hpast.script
  exact ⟨nodes, warnings, hparse, htrees⟩

end HasWords

end Grammar

end CSurvey
