import CSurvey.Proofs.Grammar.Results
import CSurvey.Proofs.Grammar.TypeNames

/-! # Function bodies among declared names

A declaration reads its names in rounds, and a function body ends the rounds where a brace stands
behind the declarator. Whether other names have been read by then is not asked. -/

namespace CSurvey.Grammar

/-! ## Last words -/

/-- The last word between the states is of the given kind. -/
def State.EndsWith (s : State) (k : Token.Kind) (t : State) : Prop :=
  ∃ ws w, s.script = ws ++ w :: t.script ∧ w.1 = k

namespace State.EndsWith

variable {s t u : State} {k k' : Token.Kind}

theorem front (hs : s.front.kind = k) (hk : k ≠ .endOfInput) : s.EndsWith k s.dropFront :=
  ⟨[], s.front.word, State.script_of_front (hs ▸ hk), hs⟩

theorem behind (h : s.Leads t) (h' : t.EndsWith k u) : s.EndsWith k u := by
  obtain ⟨ws, hs⟩ := h.script
  obtain ⟨vs, w, ht, hw⟩ := h'
  exact ⟨ws ++ vs, w, by rw [hs, ht, List.append_assoc], hw⟩

/-- There is only one last word. -/
theorem unique (h : s.EndsWith k t) (h' : s.EndsWith k' t) : k = k' := by
  obtain ⟨ws, w, hs, rfl⟩ := h
  obtain ⟨vs, v, hs', rfl⟩ := h'
  have hsame : (ws ++ [w]) ++ t.script = (vs ++ [v]) ++ t.script := by
    simpa using hs.symm.trans hs'
  obtain ⟨-, hlast⟩ := List.append_inj' (List.append_cancel_right hsame) rfl
  rw [List.singleton_inj.mp hlast]

end State.EndsWith

/-! ## One name -/

/-- One round of reading the names of a declaration. -/
def nameRound (r : Rules) (location : Position) (type : TypeSpecifier) (body : Option Node)
    (names : DeclaredNames) : Parse (Turn DeclaredNames) := do
  let body := if names.nodes.isEmpty then body else none
  let d ← declarator r
  let full := d.wholeType type.text
  if d.declaresFunction && (← frontKind) = .delimiter .leftBrace then
    let code ← block r
    let node := .texted .functionDefinition full location (d.node :: code :: body.toList)
    pure (.done ⟨node :: names.nodes, true⟩)
  else
    let node ← declared r location full d body
    if ← accept (.delimiter .comma) then pure (.again ⟨node :: names.nodes, false⟩)
    else pure (.done ⟨node :: names.nodes, false⟩)

section

variable {r : Rules} {location : Position} {type : TypeSpecifier} {body : Option Node}
  {names : DeclaredNames} {s t u : State}

/-- A block ends at its brace. -/
theorem block_endsWith (hr : r.Composed) {code : Node} (h : block r s = .ok code t) :
    s.front.kind = .delimiter .leftBrace ∧ s.EndsWith (.delimiter .rightBrace) t := by
  obtain ⟨brace, u, hbrace, h⟩ := bind_eq_ok.mp h
  obtain ⟨found, v, hfound, h⟩ := bind_eq_ok.mp h
  obtain ⟨close, w, hclose, h⟩ := bind_eq_ok.mp h
  obtain ⟨rfl, rfl⟩ := pure_eq_ok.mp h
  obtain ⟨hopen, -, rfl⟩ := require_eq_ok.mp hbrace
  obtain ⟨hk, -, rfl⟩ := require_eq_ok.mp hclose
  have hleads : s.dropFront.Leads v := by
    refine Composed.leads (.loop fun found => .bind (.takeComments rfl) fun _ =>
      .bind .frontKind fun kind => ?_) hfound
    split
    · exact .pure _
    · exact .fail _
    · exact .bind hr.statement fun _ => .pure _
  exact ⟨hopen, .behind ((State.Leads.dropFront s).trans hleads) (.front hk (by simp))⟩

/-- A name that is declared without a body is no definition, and is behind no brace if it is the
name of a variable. -/
theorem declared_ok {type : String} {d : Declarator} {node : Node}
    (h : declared r location type d body s = .ok node t) :
    node.kind ≠ .functionDefinition ∧
      (s.front.kind = .delimiter .leftBrace → t = s) := by
  unfold declared at h
  split at h
  · obtain ⟨rfl, rfl⟩ := pure_eq_ok.mp h
    exact ⟨by simp [Node.texted], fun _ => rfl⟩
  · obtain ⟨b, u, haccept, h⟩ := bind_eq_ok.mp h
    rcases accept_eq_ok.mp haccept with ⟨hassign, rfl, rfl⟩ | ⟨-, rfl, rfl⟩
    · obtain ⟨value, v, -, h⟩ := bind_eq_ok.mp h
      obtain ⟨rfl, -⟩ := pure_eq_ok.mp h
      exact ⟨by simp [Node.texted], by simp [hassign]⟩
    · obtain ⟨rfl, rfl⟩ := pure_eq_ok.mp h
      exact ⟨by simp [Node.texted], fun _ => rfl⟩

/-- What one name comes to: a definition, which ends the names, or a declaration, behind which a
comma goes on with them. -/
inductive NameRead (r : Rules) (location : Position) (type : TypeSpecifier) (body : Option Node)
    (names : DeclaredNames) (s : State) : Turn DeclaredNames → State → Prop where
  | defined {d : Declarator} {code : Node} {u t : State} (hd : declarator r s = .ok d u)
      (hfunction : d.declaresFunction = true) (hcode : block r u = .ok code t) :
      NameRead r location type body names s
        (.done ⟨.texted .functionDefinition (d.wholeType type.text) location
          (d.node :: code :: (if names.nodes.isEmpty then body else none).toList) :: names.nodes,
          true⟩) t
  | more {d : Declarator} {node : Node} {u t : State} (hd : declarator r s = .ok d u)
      (hbrace : u.front.kind ≠ .delimiter .leftBrace) (hnode : node.kind ≠ .functionDefinition) :
      NameRead r location type body names s (.again ⟨node :: names.nodes, false⟩) t
  | last {node : Node} {t : State} (hnode : node.kind ≠ .functionDefinition) :
      NameRead r location type body names s (.done ⟨node :: names.nodes, false⟩) t

theorem nameRead_of_ok {turn : Turn DeclaredNames}
    (h : nameRound r location type body names s = .ok turn t) :
    NameRead r location type body names s turn t := by
  obtain ⟨d, u, hd, h⟩ := bind_eq_ok.mp h
  obtain ⟨kind, u, hkind, h⟩ := bind_eq_ok.mp h
  obtain ⟨rfl, rfl⟩ := frontKind_eq_ok.mp hkind
  split at h
  · rename_i hboth
    obtain ⟨code, v, hcode, h⟩ := bind_eq_ok.mp h
    obtain ⟨rfl, rfl⟩ := pure_eq_ok.mp h
    simp only [Bool.and_eq_true] at hboth
    exact .defined hd hboth.1 hcode
  · obtain ⟨node, v, hnode, h⟩ := bind_eq_ok.mp h
    obtain ⟨hkind, hstays⟩ := declared_ok hnode
    obtain ⟨b, w, haccept, h⟩ := bind_eq_ok.mp h
    rcases accept_eq_ok.mp haccept with ⟨hcomma, rfl, rfl⟩ | ⟨-, rfl, rfl⟩
    · obtain ⟨rfl, rfl⟩ := pure_eq_ok.mp h
      refine .more hd ?_ hkind
      rintro hbrace
      rw [hstays hbrace, hbrace] at hcomma
      contradiction
    · obtain ⟨rfl, rfl⟩ := pure_eq_ok.mp h
      exact .last hkind

/-! ## All names -/

/-- How the names of a declaration end: none of them is a definition, the only one is, or the last
one is, behind others. -/
inductive NamesRead (r : Rules) (location : Position) (type : TypeSpecifier) (body : Option Node)
    (s : State) : DeclaredNames → State → Prop where
  | declarations {nodes : List Node} {t : State}
      (hnodes : ∀ n ∈ nodes, n.kind ≠ .functionDefinition) :
      NamesRead r location type body s ⟨nodes, false⟩ t
  | alone {d : Declarator} {code : Node} {u t : State} (hd : declarator r s = .ok d u)
      (hfunction : d.declaresFunction = true) (hcode : block r u = .ok code t) :
      NamesRead r location type body s
        ⟨[.texted .functionDefinition (d.wholeType type.text) location
          (d.node :: code :: body.toList)], true⟩ t
  | behind {d : Declarator} {node : Node} {nodes : List Node} {u t : State}
      (hd : declarator r s = .ok d u) (hbrace : u.front.kind ≠ .delimiter .leftBrace)
      (hnodes : ∀ n ∈ nodes, n.kind ≠ .functionDefinition) (hsome : nodes ≠ [])
      (hnode : node.kind = .functionDefinition) (hend : s.EndsWith (.delimiter .rightBrace) t) :
      NamesRead r location type body s ⟨node :: nodes, true⟩ t

theorem nameRound_composed (hr : r.Composed) :
    Composed true true (nameRound r location type body names) := by
  refine .bind (.relax (.declarator hr)) fun d => .bind .frontKind fun _ => .ite ?_ ?_
  · exact .bind (.block hr) fun _ => .pure _
  · exact .bind (.relax (.declared hr _ _ _ _)) fun _ => .bind (.accept _) fun _ =>
      .ite (.pure _) (.pure _)

theorem namesRead_of_ok (hr : r.Composed)
    (h : declaredNames r location type body s = .ok names t) :
    NamesRead r location type body s names t := by
  -- Before a round no name is a definition, and the first one, if it has been read, has no brace
  -- behind its declarator.
  let started : DeclaredNames → State → Prop := fun names u =>
    s.Leads u ∧ (∀ n ∈ names.nodes, n.kind ≠ .functionDefinition) ∧
      (names.nodes = [] ∧ u = s ∨ names.nodes ≠ [] ∧
        ∃ d v, declarator r s = .ok d v ∧ v.front.kind ≠ .delimiter .leftBrace)
  refine loop_ok (I := started) (D := NamesRead r location type body s) ?_
    ⟨.refl s, by simp, .inl ⟨rfl, rfl⟩⟩ h
  rintro names u turn v ⟨hleads, hnodes, hfirst⟩ hturn
  have hround : nameRound r location type body names u = .ok turn v := hturn
  have hbehind := hleads.trans ((nameRound_composed hr).leads hround)
  cases nameRead_of_ok hround with
  | @defined d code w _ hd hfunction hcode =>
      rcases hfirst with ⟨hnone, rfl⟩ | ⟨hsome, d', w', hd', hbrace⟩
      · simp only [Turn.Holds, hnone]
        exact .alone hd hfunction hcode
      · have hlater := hleads.trans ((Composed.declarator hr).toTrue.leads hd)
        exact .behind hd' hbrace hnodes hsome rfl (.behind hlater (block_endsWith hr hcode).2)
  | @more d node w _ hd hbrace hnode =>
      refine ⟨hbehind, List.forall_mem_cons.mpr ⟨hnode, hnodes⟩, .inr ⟨by simp, ?_⟩⟩
      rcases hfirst with ⟨-, rfl⟩ | ⟨-, hfirst⟩
      · exact ⟨d, w, hd, hbrace⟩
      · exact hfirst
  | last hnode => exact .declarations (List.forall_mem_cons.mpr ⟨hnode, hnodes⟩)

/-! ## Declarations -/

/-- The declaration is a type, the declarator of a function and its body, and comes to a definition
only; or it has no definition and ends at a semicolon. -/
def BodyAlone (r : Rules) (s : State) (nodes : List Node) (t : State) : Prop :=
  (∃ type u d v code, typeSpecifier r s = .ok type u ∧ declarator r u = .ok d v ∧
      d.declaresFunction = true ∧ block r v = .ok code t ∧
      nodes = [.texted .functionDefinition (d.wholeType type.text) s.front.location (d.node :: code ::
        (type.structNode.filter fun n => n.kind = .structDefinition).toList)]) ∨
    (∀ n ∈ nodes, n.kind ≠ .functionDefinition) ∧ s.EndsWith (.delimiter .semicolon) t

/-- A brace stands behind the first declarator. -/
def OpensBody (r : Rules) (s : State) : Prop :=
  ∃ type u d v, typeSpecifier r s = .ok type u ∧ declarator r u = .ok d v ∧
    v.front.kind = .delimiter .leftBrace

/-- The last of several nodes is the only definition among them. -/
def BodyBehind (nodes : List Node) : Prop :=
  ∃ before definition, nodes = before ++ [definition] ∧ before ≠ [] ∧
    (∀ n ∈ before, n.kind ≠ .functionDefinition) ∧ definition.kind = .functionDefinition

theorem structSpecifier_kind {node : Node} (h : structSpecifier r s = .ok node t) :
    node.kind = .structDefinition ∨ node.kind = .structDeclaration := by
  obtain ⟨keyword, u, -, h⟩ := bind_eq_ok.mp h
  obtain ⟨kind, v, -, h⟩ := bind_eq_ok.mp h
  split at h
  · obtain ⟨tag, w, -, h⟩ := bind_eq_ok.mp h
    obtain ⟨b, u, -, h⟩ := bind_eq_ok.mp h
    split at h
    · obtain ⟨members, v, -, h⟩ := bind_eq_ok.mp h
      obtain ⟨close, w, -, h⟩ := bind_eq_ok.mp h
      obtain ⟨rfl, -⟩ := pure_eq_ok.mp h
      exact .inl rfl
    · obtain ⟨rfl, -⟩ := pure_eq_ok.mp h
      exact .inr rfl
  · simp [failFound] at h

/-- The struct of a type is no function. -/
theorem typeSpecifier_struct_kind {levels : Nat} (h : typeSpecifier (.level levels) s = .ok type t) :
    ∀ n ∈ type.structNode.toList, n.kind ≠ .functionDefinition := by
  obtain ⟨words, u, -, h⟩ := bind_eq_ok.mp h
  obtain ⟨kind, v, -, h⟩ := bind_eq_ok.mp h
  split at h
  · obtain ⟨token, w, -, h⟩ := bind_eq_ok.mp h
    obtain ⟨rfl, -⟩ := pure_eq_ok.mp h
    simp
  · split at h
    · obtain ⟨node, w, hnode, h⟩ := bind_eq_ok.mp h
      obtain ⟨rfl, -⟩ := pure_eq_ok.mp h
      cases levels with
      | zero => simp [Rules.level, Rules.none, fail] at hnode
      | succ levels =>
          have hkind := structSpecifier_kind (r := .level levels) hnode
          rcases hkind with hkind | hkind <;> simp [hkind]
    · split at h
      · simp [failFound] at h
      · obtain ⟨rfl, -⟩ := pure_eq_ok.mp h
        simp

theorem BodyBehind.not_bodyAlone {nodes : List Node} (h : BodyBehind nodes) :
    ¬BodyAlone r s nodes t := by
  obtain ⟨before, definition, rfl, hsome, -, hkind⟩ := h
  rintro (⟨type, u, d, v, code, -, -, -, -, hone⟩ | ⟨hnone, -⟩)
  · have hlength := congrArg List.length hone
    have hpos := List.length_pos_iff.mpr hsome
    simp only [List.length_append, List.length_cons, List.length_nil] at hlength
    omega
  · exact hnone definition (by simp) hkind

/-- A declaration has a body behind its first declarator, or ends at a semicolon, or ends at the body
of a later name. -/
theorem declaration_forms {levels : Nat} {nodes : List Node}
    (h : declaration (.level levels) s = .ok nodes t) :
    BodyAlone (.level levels) s nodes t ∧ OpensBody (.level levels) s ∨
      BodyAlone (.level levels) s nodes t ∧ s.EndsWith (.delimiter .semicolon) t ∨
        BodyBehind nodes ∧ s.EndsWith (.delimiter .rightBrace) t ∧ ¬OpensBody (.level levels) s := by
  have hr := Rules.level_composed levels
  obtain ⟨location, s', hlocation, h⟩ := bind_eq_ok.mp h
  obtain ⟨rfl, rfl⟩ := EStateM.Result.ok.inj hlocation
  obtain ⟨type, u, htype, h⟩ := bind_eq_ok.mp h
  have hleads := (Composed.typeSpecifier hr).toTrue.leads htype
  obtain ⟨b, v, haccept, h⟩ := bind_eq_ok.mp h
  rcases accept_eq_ok.mp haccept with ⟨hsemicolon, rfl, rfl⟩ | ⟨-, rfl, rfl⟩
  · obtain ⟨rfl, rfl⟩ := pure_eq_ok.mp h
    have hend := State.EndsWith.behind hleads (.front hsemicolon (by simp))
    exact .inr (.inl ⟨.inr ⟨typeSpecifier_struct_kind htype, hend⟩, hend⟩)
  · obtain ⟨names, v, hnames, h⟩ := bind_eq_ok.mp h
    have hread := namesRead_of_ok hr hnames
    have hbehind := hleads.trans ((Composed.declaredNames hr _ _ _).leads hnames)
    cases hread with
    | declarations hnodes =>
        obtain ⟨close, w, hclose, h⟩ := bind_eq_ok.mp h
        obtain ⟨rfl, rfl⟩ := pure_eq_ok.mp h
        obtain ⟨hsemicolon, -, rfl⟩ := require_eq_ok.mp hclose
        have hend := State.EndsWith.behind hbehind (.front hsemicolon (by simp))
        exact .inr (.inl ⟨.inr ⟨by simpa using hnodes, hend⟩, hend⟩)
    | alone hd hfunction hcode =>
        obtain ⟨rfl, rfl⟩ := pure_eq_ok.mp h
        exact .inl ⟨.inl ⟨_, _, _, _, _, htype, hd, hfunction, hcode, rfl⟩, _, _, _, _, htype, hd,
          (block_endsWith hr hcode).1⟩
    | @behind d node nodes w _ hd hbrace hnodes hsome hnode hend =>
        obtain ⟨rfl, rfl⟩ := pure_eq_ok.mp h
        refine .inr (.inr ⟨⟨nodes.reverse, node, by simp, by simpa using hsome, by simpa using hnodes,
          hnode⟩, .behind hleads hend, ?_⟩)
        rintro ⟨type', u', d', w', htype', hd', hbrace'⟩
        obtain ⟨rfl, rfl⟩ := EStateM.Result.ok.inj (htype.symm.trans htype')
        obtain ⟨rfl, rfl⟩ := EStateM.Result.ok.inj (hd.symm.trans hd')
        exact hbrace hbrace'

end

/-- A body stands alone exactly where a declaration ends at a semicolon or has a brace behind its
first declarator. Every other declaration ends at the body of a later name. -/
theorem declaration_bodyAlone_iff {levels : Nat} {s t : State} {nodes : List Node}
    (h : declaration (.level levels) s = .ok nodes t) :
    (BodyAlone (.level levels) s nodes t ↔
        s.EndsWith (.delimiter .semicolon) t ∨ OpensBody (.level levels) s) ∧
      (BodyAlone (.level levels) s nodes t ∨
        BodyBehind nodes ∧ s.EndsWith (.delimiter .rightBrace) t) := by
  rcases declaration_forms h with ⟨halone, hopens⟩ | ⟨halone, hend⟩ | ⟨hbehind, hend, hnot⟩
  · exact ⟨iff_of_true halone (.inr hopens), .inl halone⟩
  · exact ⟨iff_of_true halone (.inl hend), .inl halone⟩
  · refine ⟨iff_of_false hbehind.not_bodyAlone ?_, .inr ⟨hbehind, hend⟩⟩
    rintro (hsemicolon | hopens)
    · have hsame := hsemicolon.unique hend
      contradiction
    · exact hnot hopens

/-- The body of the only name stands alone. -/
theorem declaration_bodyAlone_function :
    let tokens : List Token := [⟨.keyword .intKw, "int", ⟨1, 1⟩⟩, ⟨.identifier, "f", ⟨1, 5⟩⟩,
      ⟨.delimiter .leftParen, "(", ⟨1, 6⟩⟩, ⟨.delimiter .rightParen, ")", ⟨1, 7⟩⟩,
      ⟨.delimiter .leftBrace, "\x7b", ⟨1, 9⟩⟩, ⟨.delimiter .rightBrace, "\x7d", ⟨1, 11⟩⟩,
      .endOfInput ⟨1, 12⟩]
    let r := Rules.forTokens tokens
    let s := State.ofTokens tokens 48
    let node : Node := .texted .functionDefinition "int" ⟨1, 1⟩
      [.texted .functionDeclarator "f" ⟨1, 5⟩ [], .plain .block ⟨1, 9⟩ []]
    ∃ t, declaration r s = .ok [node] t ∧ OpensBody r s ∧ BodyAlone r s [node] t := by
  intro tokens r s node
  obtain ⟨t, ht⟩ : ∃ t, declaration r s = .ok [node] t := exists_eq_ok (by decide +kernel)
  have hopens : OpensBody r s := ⟨_, _, _, _, rfl, rfl, rfl⟩
  exact ⟨t, ht, hopens, (declaration_bodyAlone_iff ht).1.mpr (.inr hopens)⟩

/-- A body is read behind another name. -/
theorem declaration_not_bodyAlone :
    let tokens : List Token := [⟨.keyword .intKw, "int", ⟨1, 1⟩⟩, ⟨.identifier, "a", ⟨1, 5⟩⟩,
      ⟨.delimiter .comma, ",", ⟨1, 6⟩⟩, ⟨.identifier, "f", ⟨1, 8⟩⟩,
      ⟨.delimiter .leftParen, "(", ⟨1, 9⟩⟩, ⟨.delimiter .rightParen, ")", ⟨1, 10⟩⟩,
      ⟨.delimiter .leftBrace, "\x7b", ⟨1, 12⟩⟩, ⟨.delimiter .rightBrace, "\x7d", ⟨1, 14⟩⟩,
      .endOfInput ⟨1, 15⟩]
    let r := Rules.forTokens tokens
    let s := State.ofTokens tokens 48
    ∃ nodes t, declaration r s = .ok nodes t ∧
      nodes.map Node.kind = [.variableDeclaration, .functionDefinition] ∧
      ¬BodyAlone r s nodes t := by
  intro tokens r s
  let nodes : List Node := [
    .texted .variableDeclaration "int" ⟨1, 1⟩ [.texted .variableDeclarator "a" ⟨1, 5⟩ []],
    .texted .functionDefinition "int" ⟨1, 1⟩
      [.texted .functionDeclarator "f" ⟨1, 8⟩ [], .plain .block ⟨1, 12⟩ []]]
  obtain ⟨t, ht⟩ : ∃ t, declaration r s = .ok nodes t := exists_eq_ok (by decide +kernel)
  have hbehind : BodyBehind nodes := ⟨[_], _, rfl, by simp, by simp [Node.texted], rfl⟩
  exact ⟨nodes, t, ht, rfl, hbehind.not_bodyAlone⟩

end CSurvey.Grammar
