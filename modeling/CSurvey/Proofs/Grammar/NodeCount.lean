import CSurvey.Proofs.Grammar.Funds

/-! # Trees are no larger than their token lists

A node is made of a token that no other node is made of, or stands for one: an absent part for a
separator beside it, a declared name for its comma or semicolon, a block for its braces. So a tree
has no more nodes than there are tokens, its root apart. -/

namespace CSurvey

namespace Grammar

open Node (countAll)

/-- Rules of which each result is paid for with the tokens that it takes. A statement may fall
short by one where the marker of a directive line is missed, or where its nodes are brought down to
one. -/
structure Rules.Pays (r : Rules) : Prop where
  expression : Grammar.Pays Always 0 r.expression Node.count
  conditional : Grammar.Pays Always 0 r.conditional Node.count
  unary : Grammar.Pays Always 0 r.unary Node.count
  initializer : Grammar.Pays Always 0 r.initializer Node.count
  structSpecifier : Grammar.Pays (fun s => s.front.kind = .keyword .structKw) 0 r.structSpecifier
    fun n => 1 + n.count
  statement : Grammar.Pays (fun s => ¬s.MissesLine) 0 r.statement countAll
  single : ∀ location, Grammar.Pays Always 1 r.statement fun ns => (asSingle location ns).count

namespace Pays

variable {P : State → Prop} {held : Nat} {r : Rules}

/-! ## Types -/

theorem typeModifiers : Pays P 0 typeModifiers List.length := by
  refine bind (loop (N := List.length) (L := List.length) (fun words => ?_) (Nat.le_refl _))
    fun words => pure (by simp)
  exact bindKind fun kind => ite
    (fun hk => bindKnown (ne_endOfInput hk rfl) fun token => pure (Nat.le_refl _))
    fun _ => pure (Nat.le_refl _)

/-- A type takes a token that its struct does not need. -/
theorem typeSpecifier (h : r.Pays) :
    Pays P 0 (typeSpecifier r) fun type => 1 + countAll type.structNode.toList := by
  refine bind typeModifiers fun words => bindKind fun kind => ite (fun hk => ?_) fun _ =>
    ite (fun hk => ?_) fun _ => ite (fun _ => stop) fun hwords => pure ?_
  · exact bindKnown (ne_endOfInput hk rfl) fun token => pure (Nat.le_add_left ..)
  · refine bind (h.structSpecifier.mono fun s hs => hs.2.trans hk) fun node => pure ?_
    simp
  · have hpos : 0 < words.length := List.length_pos_iff.mpr (by simpa using hwords)
    simp
    omega

theorem pointerStars (type : String) : Pays P 0 (pointerStars type) fun _ => 0 :=
  loop (N := fun _ => 0) (fun _ => bindAccept (by simp) (pure (Nat.zero_le _))
    (pure (Nat.le_refl _))) (Nat.le_refl _)

theorem typeName (h : r.Pays) : Pays P 0 (typeName r) fun _ => 1 := by
  refine bind (typeSpecifier h) fun type => (pointerStars type.text).relax fun _ => ?_
  omega

/-! ## Expressions -/

theorem moreStrings (text : String) : Pays P 0 (moreStrings text) fun _ => 0 :=
  loop (N := fun _ => 0) (fun _ => bindKind fun kind => ite
    (fun hk => bindKnown (by simp [hk]) fun _ => pure (Nat.zero_le _))
    fun _ => pure (Nat.le_refl _)) (Nat.le_refl _)

theorem primary (h : r.Pays) : Pays P 0 (primary r) Node.count := by
  refine bindLook fun token => ?_
  have htake : ∀ {f : Token → Parse Node}, token.kind ≠ .endOfInput →
      (∀ t, Pays Always 1 (f t) Node.count) →
      Pays (fun s => P s ∧ s.front = token) 0 (takeFront >>= f) Node.count := fun hk hf =>
    bindTake (fun s hs => by rwa [hs.2]) hf
  split
  · rename_i hk
    refine htake (by simp [hk]) fun _ => ?_
    split
    · exact pure (Nat.le_refl _)
    · exact stop
  · rename_i hk
    exact htake (by simp [hk]) fun _ => bind (moreStrings _) fun _ => pure (Nat.le_refl _)
  · rename_i hk
    exact htake (by simp [hk]) fun _ => pure (Nat.le_refl _)
  · rename_i hk
    exact htake (by simp [hk]) fun _ => pure (Nat.le_refl _)
  · rename_i hk
    refine htake (by simp [hk]) fun _ => bind h.expression fun inner => bindMark fun _ => pure ?_
    omega
  · exact stop

theorem arguments (h : r.Pays) : Pays P 0 (arguments r) countAll := by
  refine bindKind fun kind => ite (fun _ => pure (Nat.le_refl _)) fun _ => ?_
  exact (commaSeparated (Nat.zero_le 1) h.expression).relax fun given => by
    simp [Node.countAll_eq_sum]

theorem memberOf (kind : Node.Kind) (operand : Node)
    (hk : ∀ s, P s → s.front.kind ≠ .endOfInput) :
    Pays P operand.count (memberOf kind operand) Node.count := by
  refine bindTake hk fun op => bindRequire (by simp) fun name => pure ?_
  simp
  omega

theorem continued (h : r.Pays) (operand : Node) :
    Pays (fun s => continuesOperand s.front.kind = true) operand.count (continued r operand)
      Node.count := by
  refine bindKind fun kind => ?_
  have hk : ∀ s : State, continuesOperand s.front.kind = true ∧ s.front.kind = kind →
      s.front.kind ≠ .endOfInput := fun s hs => ne_endOfInput hs.1 rfl
  split
  · refine bindTake hk fun bracket => bind h.expression fun index => bindMark fun _ => pure ?_
    simp
    omega
  · refine bindTake hk fun paren => bind (arguments h) fun given => bindMark fun _ => pure ?_
    simp
    omega
  · exact memberOf _ _ hk
  · exact memberOf _ _ hk
  · refine bindTake hk fun op => pure ?_
    simp
    omega

theorem operand (h : r.Pays) : Pays P 0 (operand r) Node.count := by
  refine bind (primary h) fun first =>
    loop (N := Node.count) (fun operand => ?_) (Nat.le_of_eq (Nat.zero_add _).symm)
  refine bindKind fun kind => ite (fun hk => ?_) fun _ => pure (Nat.le_refl _)
  refine bindDeeper (R := fun s => continuesOperand s.front.kind = true)
    (fun s hs => hs.2.symm ▸ hk) fun _ => ?_
  intro s t turn hs hturn
  obtain ⟨longer, u, hu, hturn⟩ := bind_eq_ok.mp hturn
  obtain ⟨rfl, rfl⟩ := pure_eq_ok.mp hturn
  exact continued h operand hs hu

theorem bindTypeInParens {α : Type} {N : α → Nat} {f : Bool → Parse α}
    (hyes : Pays (fun s => P s ∧ s.front.kind = .delimiter .leftParen) held (f true) N)
    (hno : Pays P held (f false) N) : Pays P held (typeInParens >>= f) N := by
  refine bindLook (g := fun s => decide (s.front.kind = .delimiter .leftParen) &&
    s.second.kind.startsType) fun inParens => ?_
  cases inParens with
  | true => exact hyes.mono fun s hs => ⟨hs.1, by simpa using (Bool.and_eq_true_iff.mp hs.2).1⟩
  | false => exact hno.mono fun s hs => hs.1

theorem sizeOf (h : r.Pays) (hk : ∀ s, P s → s.front.kind ≠ .endOfInput) :
    Pays P 0 (sizeOf r) Node.count := by
  refine bindTake hk fun keyword => bindTypeInParens ?_ ?_
  · refine bindKnown (by simp) fun _ => bind (typeName h) fun type => bindMark fun _ => pure ?_
    simp
  · refine bind (oneDeeper h.unary fun _ _ => trivial) fun inner => pure ?_
    simp

theorem cast (h : r.Pays) :
    Pays (fun s => P s ∧ s.front.kind = .delimiter .leftParen) 0 (Grammar.cast r) Node.count := by
  refine bindKnown (by simp) fun paren => bind (typeName h) fun type => bindMark fun _ =>
    bind (oneDeeper h.unary fun _ _ => trivial) fun inner => pure ?_
  simp

theorem unary (h : r.Pays) : Pays P 0 (unary r) Node.count := by
  refine bindKind fun kind => ?_
  split
  · refine ite (fun _ => ?_) fun _ => ite (fun _ => ?_) fun _ => operand h
    · refine bindKnown (by simp) fun op =>
        bind (oneDeeper h.unary fun _ _ => trivial) fun inner => pure ?_
      simp
    · refine bindKnown (by simp) fun op => bind (operand h) fun inner => pure ?_
      simp
  · exact sizeOf h fun s hs => by simp [hs.2]
  · exact bindTypeInParens (cast h) (operand h)

theorem chain (level : Nat) {operand : Parse Node} (hp : Pays Always 0 operand Node.count) :
    Pays P 0 (chain level operand) Node.count := by
  refine bind (hp.mono fun _ _ => trivial) fun first =>
    loop (N := Node.count) (fun left => ?_) (Nat.le_of_eq (Nat.zero_add _).symm)
  refine bindKind fun kind => ite (fun hk => ?_) fun _ => pure (Nat.le_refl _)
  refine bindDeeper (R := fun s => s.front.kind = kind) (fun s hs => hs.2) fun _ => ?_
  refine bindTake (fun s hs => hs ▸ ne_endOfInput hk rfl) fun op => bind hp fun right => pure ?_
  show Node.count _ ≤ _
  simp
  omega

theorem binary (h : r.Pays) (level : Nat) : Pays P 0 (binary r level) Node.count := by
  induction level generalizing P with
  | zero => exact unary h
  | succ level ih => exact chain _ ih

theorem conditional (h : r.Pays) : Pays P 0 (conditional r) Node.count := by
  refine bind (binary h 10) fun condition => bindKind fun kind => ite (fun hk => ?_) fun _ =>
    pure (Nat.le_of_eq (Nat.zero_add _).symm)
  refine bindKnown (by simp [hk]) fun question => bind h.expression fun yes =>
    bindMark fun _ => bind (oneDeeper h.conditional fun _ _ => trivial) fun no => pure ?_
  simp
  omega

theorem expression (h : r.Pays) : Pays P 0 (expression r) Node.count := by
  refine oneDeeper (R := Always) ?_ fun _ _ => trivial
  refine bind (conditional h) fun target => bindKind fun kind => ite (fun hk => ?_) fun _ =>
    pure (Nat.le_of_eq (Nat.zero_add _).symm)
  refine bindKnown (ne_endOfInput hk rfl) fun op => bind h.expression fun value => pure ?_
  simp
  omega

/-! ## Declarators -/

theorem skipQualifiers : Pays P 0 skipQualifiers fun _ => 0 := by
  refine loop (N := fun _ => 0) (fun _ => bindKind fun kind => ?_) (Nat.le_refl _)
  split
  · exact bindSkip fun _ => pure (Nat.le_refl _)
  · exact bindSkip fun _ => pure (Nat.le_refl _)
  · exact pure (Nat.le_refl _)

theorem pointers : Pays P 0 pointers fun _ => 0 :=
  loop (N := fun _ => 0) (fun _ => bindAccept (by simp)
    (bind skipQualifiers fun _ => pure (Nat.zero_le _)) (pure (Nat.le_refl _))) (Nat.le_refl _)

theorem arraySize (h : r.Pays) (hk : ∀ s, P s → s.front.kind ≠ .endOfInput) :
    Pays P 0 (arraySize r) Node.count := by
  refine bindTake hk fun bracket => bindAccept (by simp) (pure ?_)
    (bind h.expression fun size => bindMark fun _ => pure ?_)
  · simp
  · omega

theorem arraySizes (h : r.Pays) : Pays P 0 (arraySizes r) countAll := by
  refine bind (loop (N := countAll) (L := countAll) (fun sizes => ?_) (Nat.le_refl _))
    fun sizes => pure (by simp)
  refine bindKind fun kind => ite (fun hk => ?_) fun _ => pure (Nat.le_refl _)
  refine bind (arraySize h fun s hs => by simp [hs.2, hk]) fun size => pure ?_
  exact Nat.le_of_eq (Nat.add_comm ..)

theorem parameterSizes (h : r.Pays) (type : String) :
    Pays P 0 (parameterSizes r type) fun _ => 0 := by
  refine loop (N := fun _ => 0) (fun _ => bindAccept (by simp) ?_ (pure (Nat.le_refl _)))
    (Nat.le_refl _)
  refine bindKind fun kind => ite (fun _ => ?_) fun _ => ?_
  · exact bindMark fun _ => pure (Nat.zero_le _)
  · exact bind (h.expression.mono fun _ _ => trivial) fun size => bindMark fun _ =>
      pure (Nat.zero_le _)

theorem parameterName : Pays P 0 parameterName countAll :=
  bindKind fun _ => ite (fun hk => bindKnown (by simp [hk]) fun _ => pure (Nat.le_refl _))
    fun _ => pure (Nat.le_refl _)

theorem parameter (h : r.Pays) : Pays P 0 (parameter r) Node.count := by
  refine bindLook fun location => bindKind fun kind => ite (fun _ => ?_) fun _ => stop
  refine bind (typeName h) fun type => bind parameterName fun name =>
    bind (parameterSizes h type) fun type => pure ?_
  simp

theorem ellipsis : Pays P 0 ellipsis Node.count :=
  bindLook fun _ => bindMark fun _ => bindMark fun _ => bindMark fun _ =>
    pure (Nat.le_add_left ..)

theorem parameters (h : r.Pays) : Pays P 0 (parameters r) countAll := by
  refine bind (loop (N := countAll) (L := countAll) (fun found => ?_) (Nat.le_refl _))
    fun found => pure (by simp)
  have hround : ∀ (n : Node) (held : Nat), countAll found + n.count ≤ held →
      countAll (n :: found) ≤ held := by
    intro n held hle
    rw [Node.countAll_cons]
    omega
  refine bindKind fun kind => ite (fun _ => ?_) fun _ => ?_
  · exact bind ellipsis fun last => pure (hround _ _ (Nat.le_refl _))
  · exact bind (parameter h) fun next => bindAccept (by simp)
      (pure (hround _ _ (Nat.le_succ _))) (pure (hround _ _ (Nat.le_refl _)))

theorem parameterList (h : r.Pays) : Pays P 0 (parameterList r) countAll :=
  bindKind fun _ => bindLook fun _ => ite (fun _ => pure (Nat.le_refl _)) fun _ =>
    ite (fun _ => bindSkip fun _ => pure (Nat.le_refl _)) fun _ => parameters h

theorem declarator (h : r.Pays) : Pays P 0 (declarator r) fun d => d.node.count := by
  refine bind pointers fun stars => bindKind fun kind => ite (fun hk => ?_) fun _ => stop
  refine bindKnown (by simp [hk]) fun name => bindAccept (by simp) ?_ ?_
  · refine bind (parameterList h) fun params => bindMark fun _ => pure ?_
    simp
    omega
  · refine bind (arraySizes h) fun sizes => pure ?_
    simp

/-- Each member needs a token beyond those of its declarator: the comma or the semicolon behind. -/
theorem structMembers (h : r.Pays) : Pays P 0 (structMembers r) countAll := by
  have hsum : ∀ (declared : List Declarator) (node : Declarator → Node),
      (∀ d, (node d).count = d.node.count + 1) →
        countAll (declared.map node) = (declared.map fun d => d.node.count + 1).sum := by
    intro declared node hnode
    rw [Node.countAll_eq_sum, List.map_map]
    exact congrArg List.sum (List.map_congr_left fun d _ => hnode d)
  refine bindLook fun location => bind (typeSpecifier h) fun type =>
    bindOwing (commaSeparated (Nat.le_refl 1) (declarator h)) (by omega) fun declared =>
    bindMark fun _ => pure ?_
  rw [hsum _ _ fun d => by simp [Nat.add_comm]]
  omega

theorem reportPassed (tag : String) (passed : List Token) :
    Pays P 0 (reportPassed tag passed) fun _ => 0 := by
  unfold Grammar.reportPassed
  split
  · exact pure (Nat.le_refl _)
  · intro s t a _ ha
    obtain ⟨-, rfl⟩ := EStateM.Result.ok.inj ha
    exact Nat.le_refl _

theorem passBraces (passed : List Token) : Pays P 0 (passBraces passed) fun _ => 0 := by
  refine bind (loop (N := fun _ => 0) (L := fun _ => 0) (fun body => ?_) (Nat.le_refl _))
    fun _ => pure (Nat.le_refl _)
  refine bindSkip fun token => ?_
  split
  · exact pure (Nat.le_refl _)
  · exact pure (Nat.le_refl _)
  · exact ite (fun _ => pure (Nat.le_refl _)) fun _ => pure (Nat.le_refl _)
  · exact ite (fun _ => pure (Nat.le_refl _)) fun _ => pure (Nat.le_refl _)

theorem structBody (h : r.Pays) (tag : String) : Pays P 0 (structBody r tag) countAll := by
  refine bind (loop (N := fun body => countAll body.members)
    (L := fun body => countAll body.members)
    (fun body => ?_) (Nat.le_refl _)) fun body => bind (reportPassed _ _) fun _ => pure (by simp)
  refine bindKind fun kind => ite (fun _ => pure (Nat.le_refl _)) fun _ => ite (fun _ => stop)
    fun _ => ite (fun _ => ?_) fun _ => ite (fun _ => ?_) fun _ => ?_
  · refine bind (reportPassed _ _) fun _ => bind (structMembers h) fun found => pure ?_
    show countAll (found.reverse ++ body.members) ≤ _
    simp
    omega
  · exact bind (passBraces _) fun passed => pure (Nat.le_refl _)
  · exact bindSkip fun token => pure (Nat.le_refl _)

theorem structSpecifier (h : r.Pays) :
    Pays (fun s => s.front.kind = .keyword .structKw) 0 (structSpecifier r)
      fun n => 1 + n.count := by
  refine bindTake (fun s hs => by simp [hs]) fun keyword => bindKind fun kind =>
    ite (fun hk => ?_) fun _ => stop
  refine bindKnown (by simp [hk]) fun tag => bindAccept (by simp) ?_ (pure (by simp))
  refine bind (structBody h tag.text) fun members => bindMark fun _ => pure ?_
  simp
  omega

/-! ## Declarations and blocks -/

theorem initializer (h : r.Pays) : Pays P 0 (initializer r) Node.count := by
  refine bindKind fun kind => ite (fun hk => ?_) fun _ => h.expression.mono fun _ _ => trivial
  refine bindKnown (by simp [hk]) fun brace => ?_
  refine bind (loop (N := countAll) (L := countAll) (fun items => ?_) (Nat.le_refl _))
    fun items => bindMark fun _ => pure ?_
  · refine bindKind fun kind => ite (fun _ => pure (Nat.le_refl _)) fun _ =>
      bind (oneDeeper h.initializer fun _ _ => trivial) fun item => bindAccept (by simp)
        (pure ?_) (pure ?_)
    · show countAll (item :: items) ≤ _
      rw [Node.countAll_cons]
      omega
    · show countAll (item :: items) ≤ _
      rw [Node.countAll_cons]
      omega
  · simp

/-- One of the two braces is left over. -/
theorem block (h : r.Pays) : Pays P 0 (block r) fun n => 1 + n.count := by
  refine bindMark fun brace => bind (loop (N := countAll) (L := countAll) (fun found => ?_)
    (Nat.le_refl _)) fun found => bindMark fun _ => pure ?_
  · refine bindComments fun comments => bindKind fun kind => ?_
    split
    · exact pure (by simp [Turn.cost, Nat.add_comm])
    · exact stop
    · refine bind (h.statement.mono fun s hs => hs.1.not_missesLine) fun nodes => pure ?_
      show countAll (nodes.reverse ++ (comments.reverse ++ found)) ≤ _
      simp
      omega
  · simp
    omega

theorem declared (h : r.Pays) (location : Position) (type : String) (d : Declarator)
    (body : Option Node) :
    Pays P (1 + d.node.count + countAll body.toList) (declared r location type d body)
      Node.count := by
  refine ite (fun _ => pure ?_) fun _ => bindAccept (by simp)
    (bind (initializer h) fun value => pure ?_) (pure ?_)
  · simp [Nat.add_assoc]
  · simp
    omega
  · simp [Nat.add_assoc]

/-- Each name needs a token beyond those of its declarator: the comma or the semicolon behind it. A
body in braces, which needs neither, has a brace for it. -/
theorem declaredNames (h : r.Pays) (location : Position) (type : TypeSpecifier)
    (body : Option Node) :
    Pays P (1 + countAll body.toList) (declaredNames r location type body)
      fun names => countAll names.nodes + if names.closed then 1 else 0 := by
  refine loop (N := fun names => 1 + countAll names.nodes +
    countAll (if names.nodes.isEmpty then body else none).toList) (fun names => ?_) (by simp)
  generalize (if names.nodes.isEmpty then body else none) = body
  refine bind (declarator h) fun d => bindKind fun kind => ite (fun _ => ?_) fun _ => ?_
  · refine bind (block h) fun code => pure ?_
    simp [Turn.cost]
    omega
  · refine bindOwing (declared h location (d.wholeType type.text) d body) (by omega) fun node =>
      bindAccept (by simp) (pure ?_) (pure ?_)
    · simp [Turn.cost]
      omega
    · simp [Turn.cost]
      omega

/-- A declaration leaves a token over. -/
theorem declaration (h : r.Pays) : Pays P 0 (declaration r) fun ns => 1 + countAll ns := by
  refine bindLook fun location => bind (typeSpecifier h) fun type => bindAccept (by simp)
    (pure (by omega)) ?_
  have hbody : countAll (type.structNode.filter fun n => n.kind = .structDefinition).toList ≤
      countAll type.structNode.toList := by
    cases type.structNode with
    | none => exact Nat.le_refl _
    | some n =>
        rw [Option.filter_some]
        split
        · exact Nat.le_refl _
        · exact Nat.zero_le _
  refine bindOwing (declaredNames h location type _) (by omega) fun names =>
    ite (fun hclosed => pure ?_) fun _ => bindMark fun _ => pure ?_
  · simp [hclosed]
    omega
  · simp
    omega

/-! ## Directive lines -/

/-- A word of the line is in hand for each text. -/
theorem lineTexts : Pays P 0 lineTexts List.length := by
  refine bind (loop (N := List.length) (L := List.length) (fun found => ?_) (Nat.le_refl _))
    fun found => pure (by simp)
  refine bindKind fun kind => ?_
  split
  · exact pure (Nat.le_refl _)
  · exact pure (Nat.le_refl _)
  · rename_i hend
    exact bindKnown hend fun token => pure (Nat.le_refl _)

/-- The line of a marker that is not missed has a text at least. -/
theorem lineTexts_ne_nil {s t : State} {words : List String}
    (hs : s.front.kind.isDirective = true) (h : Grammar.lineTexts s = .ok words t) :
    words ≠ [] := by
  obtain ⟨found, u, hu, h⟩ := bind_eq_ok.mp h
  obtain ⟨rfl, rfl⟩ := pure_eq_ok.mp h
  have hfound : found ≠ [] := by
    refine loop_ok (I := fun found v => found = [] → v.front.kind.isDirective = true)
      (D := fun found _ => found ≠ []) ?_ (fun _ => hs) hu
    intro found v turn w hv hturn
    obtain ⟨kind, x, hx, hturn⟩ := bind_eq_ok.mp hturn
    obtain ⟨hkind, rfl⟩ := frontKind_eq_ok.mp hx
    split at hturn
    · obtain ⟨rfl, rfl⟩ := pure_eq_ok.mp hturn
      intro hnone
      have hdirective := hv hnone
      rw [hkind] at hdirective
      contradiction
    · obtain ⟨rfl, rfl⟩ := pure_eq_ok.mp hturn
      intro hnone
      have hdirective := hv hnone
      rw [hkind] at hdirective
      contradiction
    · obtain ⟨token, y, -, hturn⟩ := bind_eq_ok.mp hturn
      obtain ⟨rfl, rfl⟩ := pure_eq_ok.mp hturn
      intro hnone
      contradiction
  simpa using hfound

theorem headerName : Pays P 0 headerName fun _ => 0 := by
  refine bind (loop (N := fun _ => 0) (L := fun _ => 0) (fun name => ?_) (Nat.le_refl _))
    fun name => ite (fun _ => stop) fun _ => bindSkip fun _ => pure (Nat.le_refl _)
  refine bindKind fun kind => ?_
  split
  · exact pure (Nat.le_refl _)
  · exact stop
  · exact stop
  · exact bindSkip fun _ => pure (Nat.le_refl _)

theorem inclusionTarget : Pays P 0 inclusionTarget fun _ => 0 := by
  refine bindKind fun kind => ?_
  split
  · exact bindSkip fun _ => pure (Nat.le_refl _)
  · exact bindSkip fun _ => headerName
  · exact stop

theorem inclusion (hk : ∀ s, P s → s.front.kind ≠ .endOfInput) :
    Pays P 0 inclusion Node.count := by
  refine bindTake hk fun marker => ?_
  refine bind (onDirectiveLine (R := Always) (N := fun _ => 0) ?_ fun _ _ => trivial)
    fun target => pure (by simp)
  exact bind inclusionTarget fun target => bind lineTexts fun _ => pure (Nat.zero_le _)

theorem macroValue (h : r.Pays) : Pays P 1 (macroValue r) countAll := by
  refine bindKind fun kind => ite (fun _ => ?_) fun _ => ite (fun _ => pure (Nat.zero_le _))
    fun _ => bindLook fun _ => bind lineTexts fun words => pure (by simp)
  exact bind (h.expression.mono fun _ _ => trivial) fun value => pure (by simp)

theorem macroDefinition (h : r.Pays) (hk : ∀ s, P s → s.front.kind ≠ .endOfInput) :
    Pays P 0 (macroDefinition r) Node.count := by
  refine bindTake hk fun marker => onDirectiveLine (R := Always) ?_ fun _ _ => trivial
  refine bindRequire (by simp) fun name => bindOwing (macroValue h) (by omega) fun value =>
    bind lineTexts fun words => pure ?_
  simp

/-- A directive line is paid for by its marker, unless that is missed. -/
theorem otherDirective :
    Pays (fun s => ¬s.MissesLine ∧ s.front.kind.isOtherDirective = true) 0 otherDirective
      Node.count := by
  have hwords : Pays (fun s : State => s.front.kind.isDirective = true) 0 Grammar.lineTexts
      fun _ => 1 := by
    intro s t words hs hwords
    have hle := lineTexts (P := Always) trivial hwords
    have hpos := List.length_pos_iff.mpr (lineTexts_ne_nil hs hwords)
    show 1 + t.funds ≤ 0 + s.funds
    omega
  refine bindLook fun location => bind (onDirectiveLine hwords fun s hs => ?_) fun words => pure ?_
  · rw [State.front_onLine fun hnewline => hs.1.1 ⟨hnewline, hs.1.2⟩]
    exact (Token.Kind.isOtherDirective_iff.mp hs.1.2).1
  · simp

theorem otherDirective_owing : Pays P 1 Grammar.otherDirective Node.count := by
  refine bindLook fun location => bind (onDirectiveLine (R := Always) lineTexts fun _ _ => trivial)
    fun words => pure ?_
  simp

/-! ## Statements -/

theorem count_asSingle_le (location : Position) (nodes : List Node) :
    (asSingle location nodes).count ≤ 1 + countAll nodes := by
  match nodes with
  | [] => exact Nat.le_refl _
  | [n] => simp [asSingle]
  | n :: m :: nodes => exact Nat.le_refl _

theorem singleStatement (h : r.Pays) : Pays P 1 (singleStatement r) Node.count := by
  refine bindLook fun location => bindOwing ((h.single location).mono fun _ _ => trivial)
    (Nat.le_refl 1) fun nodes => pure ?_
  omega

/-- The two parentheses are left over. -/
theorem condition (h : r.Pays) (word : String) (place : Place) :
    Pays P 0 (condition r word place) fun n => 2 + n.count := by
  refine bindMark fun _ => bind h.expression fun value => bindMark fun _ => pure ?_
  omega

theorem ifStatement (h : r.Pays) : Pays P 0 (ifStatement r) Node.count := by
  refine bindSkip fun keyword => bind (condition h _ _) fun test =>
    bindOwing (singleStatement h) (by omega) fun yes => bindAccept (by simp)
      (bindOwing (singleStatement h) (by omega) fun no => pure ?_) (pure ?_)
  · simp
    omega
  · simp
    omega

theorem forStart (h : r.Pays) : Pays P 0 (forStart r) Node.count := by
  refine bindLook fun location => bindAccept (by simp) (pure (by simp)) ?_
  refine bindKind fun kind => ite (fun _ => bind (declaration h) fun nodes => ?_) fun _ =>
    bind (h.expression.mono fun _ _ => trivial) fun value => bindMark fun _ => pure (by omega)
  split
  · exact pure (by simp)
  · exact pure (by simp)

theorem optionalBefore (h : r.Pays) (mark : Token.Delimiter) :
    Pays P 1 (optionalBefore r mark) Node.count :=
  bindKind fun _ => ite (fun _ => bindLook fun _ => pure (Nat.le_refl _)) fun _ =>
    (h.expression.mono fun _ _ => trivial).relax fun _ => by omega

theorem forStatement (h : r.Pays) (hk : ∀ s, P s → s.front.kind ≠ .endOfInput) :
    Pays P 0 (forStatement r) Node.count := by
  refine bindTake hk fun keyword => bindMark fun _ => bind (forStart h) fun start =>
    bindOwing (optionalBefore h _) (by omega) fun test => bindMark fun _ =>
    bindOwing (optionalBefore h _) (by omega) fun step => bindMark fun _ =>
    bindOwing (singleStatement h) (by omega) fun body => pure ?_
  simp
  omega

theorem whileStatement (h : r.Pays) : Pays P 0 (whileStatement r) Node.count := by
  refine bindSkip fun keyword => bind (condition h _ _) fun test =>
    bindOwing (singleStatement h) (by omega) fun body => pure ?_
  simp
  omega

theorem doWhileStatement (h : r.Pays) (hk : ∀ s, P s → s.front.kind ≠ .endOfInput) :
    Pays P 0 (doWhileStatement r) Node.count := by
  refine bindTake hk fun keyword => bindOwing (singleStatement h) (by omega) fun body =>
    bindRequire (by simp) fun _ => bind (condition h _ _) fun test => bindMark fun _ => pure ?_
  simp
  omega

theorem switchStatement (h : r.Pays) : Pays P 0 (switchStatement r) Node.count := by
  refine bindSkip fun keyword => bind (condition h _ _) fun value =>
    bindOwing (singleStatement h) (by omega) fun body => pure ?_
  simp
  omega

theorem caseLabel (h : r.Pays) : Pays P 0 (caseLabel r) Node.count := by
  refine bindSkip fun keyword => bind h.expression fun value => bindMark fun _ => pure ?_
  simp
  omega

theorem defaultLabel : Pays P 0 defaultLabel Node.count :=
  bindSkip fun _ => bindMark fun _ => pure (by simp)

theorem label : Pays P 0 label Node.count :=
  bindSkip fun _ => bindMark fun _ => pure (by simp)

theorem returnStatement (h : r.Pays) : Pays P 0 (returnStatement r) Node.count := by
  refine bindSkip fun keyword => bindKind fun kind => ite (fun _ => bindMark fun _ =>
    pure (by simp)) fun _ => bind (h.expression.mono fun _ _ => trivial) fun value =>
    bindMark fun _ => pure ?_
  simp
  omega

theorem jump (kind : Node.Kind) (word : String) : Pays P 0 (jump kind word) Node.count :=
  bindSkip fun _ => bindMark fun _ => pure (by simp)

theorem gotoStatement : Pays P 0 gotoStatement Node.count :=
  bindSkip fun _ => bindRequire (by simp) fun _ => bindMark fun _ => pure (by simp)

theorem expressionStatement (h : r.Pays) : Pays P 0 (expressionStatement r) Node.count := by
  refine bindLook fun location => bind (h.expression.mono fun _ _ => trivial) fun value =>
    bindMark fun _ => pure ?_
  simp
  omega

theorem one {p : Parse Node} (hp : Pays P 0 p Node.count) : Pays P 0 (one p) countAll :=
  bind hp fun _ => pure (by simp)

theorem bindLabelAhead {α : Type} {N : α → Nat} {f : Bool → Parse α}
    (hf : ∀ ahead, Pays P held (f ahead) N) : Pays P held (labelAhead >>= f) N :=
  bindLook (g := fun s => decide (s.front.kind = .identifier) &&
    decide (s.second.kind = .delimiter .colon)) fun ahead => (hf ahead).mono fun _ hs => hs.1

theorem openStatement (h : r.Pays) (kind : Token.Kind) :
    Pays P 0 (openStatement r kind) countAll := by
  refine bindLabelAhead fun _ => ite (fun _ => one label) fun _ => ite (fun _ => ?_) fun _ =>
    ite (fun _ => one (expressionStatement h)) fun _ => ite (fun _ => stop) fun _ =>
    bindSkip fun _ => pure (Nat.le_refl _)
  exact (declaration h).relax fun _ => by omega

theorem statementOf (h : r.Pays) (kind : Token.Kind) :
    Pays (State.At kind) 0 (statementOf r kind) countAll := by
  have hends : kind ≠ .endOfInput → ∀ s, State.At kind s → s.front.kind ≠ .endOfInput :=
    fun hk s hs => by rwa [hs.2]
  unfold Grammar.statementOf
  split
  · exact one (ifStatement h)
  · exact one (forStatement h (hends (by simp)))
  · exact one (whileStatement h)
  · exact one (doWhileStatement h (hends (by simp)))
  · exact one (switchStatement h)
  · exact one (caseLabel h)
  · exact one defaultLabel
  · exact one (returnStatement h)
  · exact one (jump _ _)
  · exact one (jump _ _)
  · exact one gotoStatement
  · exact one ((block h).relax fun _ => by omega)
  · exact one (inclusion (hends (by simp)))
  · exact one (macroDefinition h (hends (by simp)))
  · rename_i hinclusion hdefinition
    refine one (otherDirective.mono fun s hs => ⟨hs.1, ?_⟩)
    rw [hs.2]
    exact Token.Kind.isOtherDirective_iff.mpr ⟨rfl, by simpa using hinclusion,
      by simpa using hdefinition⟩
  · exact openStatement h _

theorem statement (h : r.Pays) : Pays (fun s => ¬s.MissesLine) 0 (statement r) countAll :=
  oneDeeper (bindKind fun kind => (statementOf h kind).mono fun _ hs => hs) fun _ hs => hs

theorem statementOf_missed {kind : Token.Kind} (hk : kind.isOtherDirective = true) :
    Grammar.statementOf r kind = Grammar.one Grammar.otherDirective := by
  obtain ⟨marker, rfl⟩ : ∃ marker, kind = .directive marker := by
    cases kind with
    | directive marker => exact ⟨marker, rfl⟩
    | _ => simp [Token.Kind.isOtherDirective] at hk
  cases marker <;> first | rfl | contradiction

/-- A statement that is brought down to one node, or misses its marker, may need a token in hand. -/
theorem single (h : r.Pays) (location : Position) :
    Pays P 1 (Grammar.statement r) fun ns => (asSingle location ns).count := by
  intro s t ns _ hns
  by_cases hmisses : s.MissesLine
  · obtain ⟨-, u, hu, rfl⟩ := oneDeeper_eq_ok.mp hns
    obtain ⟨kind, v, hv, hu⟩ := bind_eq_ok.mp hu
    obtain ⟨hkind, rfl⟩ := frontKind_eq_ok.mp hv
    have hother : kind.isOtherDirective = true := hkind ▸ hmisses.2
    rw [statementOf_missed hother] at hu
    obtain ⟨n, w, hw, hu⟩ := bind_eq_ok.mp hu
    obtain ⟨rfl, rfl⟩ := pure_eq_ok.mp hu
    have hle := otherDirective_owing (P := Always) trivial hw
    exact hle
  · have hle := statement h hmisses hns
    have hone := count_asSingle_le location ns
    show (asSingle location ns).count + t.funds ≤ 1 + s.funds
    omega

/-! ## Items -/

theorem item (h : r.Pays) : Pays State.Settled 0 (item r) countAll := by
  refine bindKind fun kind => ite (fun hk => ?_) fun hinclusion => ite (fun hk => ?_)
    fun hdefinition => ite (fun hk => ?_) fun _ => ite (fun _ => ?_) fun _ =>
    bindSkip fun _ => pure (Nat.le_refl _)
  · exact one (inclusion fun s hs => by simp [hs.2, hk])
  · exact one (macroDefinition h fun s hs => by simp [hs.2, hk])
  · refine one (otherDirective.mono fun s hs => ⟨hs.1.not_missesLine, ?_⟩)
    rw [hs.2]
    exact Token.Kind.isOtherDirective_iff.mpr ⟨hk, hinclusion, hdefinition⟩
  · exact (declaration h).relax fun _ => by omega

end Pays

theorem Rules.level_pays (levels : Nat) : (Rules.level levels).Pays := by
  induction levels with
  | zero => exact ⟨.stop, .stop, .stop, .stop, .stop, .stop, fun _ => .stop⟩
  | succ levels ih =>
      exact ⟨Grammar.Pays.expression ih, Grammar.Pays.conditional ih, Grammar.Pays.unary ih,
        Grammar.Pays.initializer ih, Grammar.Pays.structSpecifier ih, Grammar.Pays.statement ih,
        Grammar.Pays.single ih⟩

/-! ## Files -/

/-- The first token of a failed item pays for its error. -/
theorem State.funds_resume (failed : State) {t : Token} {tokens : List Token}
    (ht : t.kind.isComment = false) :
    (failed.resume (t :: tokens)).funds ≤ tokens.length := by
  have hlt := failed.length_resume_lt (List.cons_ne_nil t tokens)
  have hskips : Skips (t :: tokens) ((failed.resume (t :: tokens)).comments,
    (failed.resume (t :: tokens)).rest) := skips_behindItem _ true 0 (t :: tokens)
  rw [State.funds]
  generalize (failed.resume (t :: tokens)).comments = comments at hskips ⊢
  generalize (failed.resume (t :: tokens)).rest = rest at hskips hlt ⊢
  obtain ⟨passed, hpassed, rfl⟩ := hskips
  cases passed with
  | nil =>
      obtain rfl : t :: tokens = rest := hpassed
      exact absurd hlt (Nat.lt_irrefl _)
  | cons u passed =>
      have hsplit : t :: tokens = u :: (passed ++ rest) := hpassed
      obtain ⟨rfl, rfl⟩ := List.cons.inj hsplit
      have hcomments := List.length_filter_le (fun t : Token => t.kind.isComment) passed
      rw [commentNodes, List.filter_cons_of_neg (by simp [ht]), Node.countAll_comments,
        List.length_append]
      omega

theorem Progress.funds_flush (p : Progress) :
    countAll p.flush.nodes + p.flush.state.funds ≤ countAll p.nodes + p.state.funds := by
  have hpass := p.state.funds_passTrivia
  simp only [Progress.flush, State.funds, Node.countAll_append, Node.countAll_reverse,
    Node.countAll_nil] at hpass ⊢
  omega

/-- What pays for the nodes of a file pays for those that are still to come. -/
theorem readItems_pays {r : Rules} {recover : Bool} {fuel : List Token} {p : Progress} {n : Nat}
    (hr : r.Pays) (hp : countAll p.nodes + p.state.funds ≤ n) :
    (readItems r recover fuel p).Ends (fun q => countAll q.nodes + q.state.funds ≤ n)
      fun _ _ => True := by
  refine readItems_keeps (fun p hp => Nat.le_trans p.funds_flush hp) ?_ ?_ hp
  · intro p hp _ found next hitem
    have hle := Pays.item hr p.settled_flush hitem
    show countAll (found.reverse ++ p.flush.nodes) + next.funds ≤ n
    rw [Node.countAll_append, Node.countAll_reverse]
    omega
  · intro p hp hend failure failed hitem
    refine ⟨fun _ => ?_, fun _ => trivial⟩
    obtain ⟨t, tokens, hrest⟩ := List.exists_cons_of_ne_nil hend
    have hcounts : p.flush.state.isPassed t = false :=
      State.isPassed_of_upcoming_cons (p.settled_flush.trans hrest)
    have hresume : (failed.resume (t :: tokens)).funds ≤ tokens.length := by
      simp only [State.isPassed, Bool.or_eq_false_iff] at hcounts
      exact failed.funds_resume hcounts.1
    have hfunds : tokens.length + 1 ≤ p.flush.state.funds := by
      rw [State.funds, hrest]
      exact Nat.le_add_right ..
    show countAll (errorNode failure :: p.flush.nodes) + (failed.resume _).funds ≤ n
    rw [Node.countAll_cons, hrest]
    show 1 + _ + _ ≤ n
    omega

end Grammar

open Grammar

/-- A tree has no more nodes than there are tokens before the end of input, its root apart. -/
theorem count_parse_le {inner : List Token} {last : Token} (options : ParseSettings)
    (hlast : last.kind = .endOfInput) (hinner : ∀ t ∈ inner, t.kind ≠ .endOfInput) :
    (parse (inner ++ [last]) options).root.count ≤ inner.length + 1 := by
  have hends : (readFile (.forTokens (State.ofTokens (inner ++ [last]) options.maxNesting).rest)
      (inner ++ [last]) options).Ends
        (fun p => Node.countAll p.nodes + p.state.funds ≤ inner.length) fun _ _ => True := by
    refine readItems_pays (Rules.level_pays _) ?_
    rw [State.ofTokens_ends _ hlast hinner]
    exact Nat.le_of_eq (Nat.zero_add _)
  rw [parse_eq_parsed]
  cases hread : readFile (.forTokens (State.ofTokens (inner ++ [last]) options.maxNesting).rest)
      (inner ++ [last]) options with
  | complete p =>
      rw [hread] at hends
      have hle : Node.countAll p.nodes + p.state.funds ≤ inner.length := hends
      show 1 + Node.countAll p.nodes.reverse ≤ _
      rw [Node.countAll_reverse]
      omega
  | stopped failure state => exact Nat.le_add_left ..

end CSurvey
