import CSurvey.Syntax.Node

/-! # The shape of parsed trees

Which value and which children a node of each kind has, in every tree that is read from tokens. -/

namespace CSurvey.Node

namespace Kind

/-- What is decided of each kind is decided of all of them. -/
instance {p : Kind → Prop} [DecidablePred p] : Decidable (∀ k, p k) :=
  decidable_of_iff (∀ k ∈ all, p k) ⟨fun h k => h k (mem_all k), fun h k _ => h k⟩

/-! ## Classes of kinds -/

/-- A single value: an expression that is no list in braces. -/
def isTerm (k : Kind) : Bool :=
  k.isExpression && k ≠ .initializerList

/-- A name with what stands around it. -/
def isDeclarator : Kind → Bool
  | .variableDeclarator | .functionDeclarator => true
  | _ => false

/-- What a declaration comes to. -/
def isDeclaration : Kind → Bool
  | .structDefinition | .structDeclaration | .variableDeclaration | .functionDefinition
  | .functionDeclaration => true
  | _ => false

/-- A directive line. -/
def isDirective : Kind → Bool
  | .inclusion | .macroDefinition | .directive => true
  | _ => false

/-- What stands between the braces of a block. -/
def isStatement : Kind → Bool
  | .comment | .block | .ifStatement | .forStatement | .whileStatement | .doWhileStatement
  | .switchStatement | .caseLabel | .defaultLabel | .returnStatement | .breakStatement
  | .continueStatement | .gotoStatement | .label | .expressionStatement => true
  | k => k.isDeclaration || k.isDirective

/-- A single statement, which may be absent. -/
def isBody (k : Kind) : Bool :=
  k.isStatement || k = .empty

/-- An expression that may be absent. -/
def isOptionalTerm (k : Kind) : Bool :=
  k.isTerm || k = .empty

/-- What a counting loop does first. -/
def isLoopStart (k : Kind) : Bool :=
  k.isOptionalTerm || k.isDeclaration || k = .block

/-- A part of a file. -/
def isItem (k : Kind) : Bool :=
  k.isDeclaration || k.isDirective || k = .comment || k = .error

/-- A part of a file that could be read. -/
def isPart (k : Kind) : Bool :=
  k.isItem && k ≠ .error

/-- The value of a macro: an expression, or words that are none. -/
def isMacroValue (k : Kind) : Bool :=
  k.isTerm || k = .macroBody

/-! ## Values and children -/

/-- Whether each kind in a list is of the class at the same place in another. -/
def each : List (Kind → Bool) → List Kind → Bool
  | [], [] => true
  | p :: ps, k :: ks => p k && each ps ks
  | _, _ => false

@[simp] theorem each_cons_cons (p : Kind → Bool) (ps : List (Kind → Bool)) (k : Kind)
    (ks : List Kind) : each (p :: ps) (k :: ks) = (p k && each ps ks) := rfl

@[simp] theorem each_nil_nil : each [] [] = true := rfl

theorem each_nil {ks : List Kind} : each [] ks = true ↔ ks = [] := by
  cases ks <;> simp [each]

theorem each_cons {p : Kind → Bool} {ps : List (Kind → Bool)} {ks : List Kind} :
    each (p :: ps) ks = true ↔ ∃ k more, ks = k :: more ∧ p k = true ∧ each ps more = true := by
  cases ks <;> simp [each, and_assoc]

/-- Whether a value is a text. -/
def hasText : Option Value → Bool
  | some (.text _) => true
  | _ => false

/-- Whether a value is a number. -/
def hasNumber : Option Value → Bool
  | some (.number _) => true
  | _ => false

/-- Whether a node of a kind may have this value and children of these kinds. -/
def admits (kind : Kind) (value : Option Value) (below : List Kind) : Bool :=
  match kind with
  | .program => value.isNone && below.all isItem
  | .inclusion | .macroBody | .directive | .comment | .structDeclaration | .defaultLabel
  | .breakStatement | .continueStatement | .gotoStatement | .label | .string | .character
  | .identifier | .error => hasText value && below.isEmpty
  | .macroDefinition => hasText value && (below.isEmpty || each [isMacroValue] below)
  | .structDefinition => hasText value && below.all (· = .structMember)
  | .structMember => hasText value && each [isDeclarator] below
  | .variableDeclaration =>
    hasText value &&
      (each [(· = .variableDeclarator)] below
        || each [(· = .variableDeclarator), isExpression] below
        || each [(· = .variableDeclarator), (· = .structDefinition)] below
        || each [(· = .variableDeclarator), isExpression, (· = .structDefinition)] below)
  | .functionDefinition =>
    hasText value &&
      (each [(· = .functionDeclarator), (· = .block)] below
        || each [(· = .functionDeclarator), (· = .block), (· = .structDefinition)] below)
  | .functionDeclaration =>
    hasText value &&
      (each [(· = .functionDeclarator)] below
        || each [(· = .functionDeclarator), (· = .structDefinition)] below)
  | .variableDeclarator => hasText value && below.all isOptionalTerm
  | .functionDeclarator => hasText value && below.all (· = .parameter)
  | .parameter => hasText value && (below.isEmpty || each [(· = .identifier)] below)
  | .initializerList => value.isNone && below.all isExpression
  | .block => value.isNone && below.all isStatement
  | .ifStatement =>
    hasText value && (each [isTerm, isBody] below || each [isTerm, isBody, isBody] below)
  | .forStatement =>
    hasText value && each [isLoopStart, isOptionalTerm, isOptionalTerm, isBody] below
  | .whileStatement | .switchStatement => hasText value && each [isTerm, isBody] below
  | .doWhileStatement => hasText value && each [isBody, isTerm] below
  | .caseLabel | .unary | .update | .cast => hasText value && each [isTerm] below
  | .returnStatement => hasText value && (below.isEmpty || each [isTerm] below)
  | .expressionStatement => value.isNone && each [isTerm] below
  | .assignment | .binary | .index => hasText value && each [isTerm, isTerm] below
  | .conditional => hasText value && each [isTerm, isTerm, isTerm] below
  | .sizeOf => hasText value && below.isEmpty || value.isNone && each [isTerm] below
  | .call => hasText value && !below.isEmpty && below.all isTerm
  | .member | .pointerMember => hasText value && each [isTerm, (· = .identifier)] below
  | .number => hasNumber value && below.isEmpty
  | .empty => value.isNone && below.isEmpty

/-- The kinds of nodes that statements and comments stand below. -/
def holdsStatements : Kind → Bool
  | .program | .functionDefinition | .block | .ifStatement | .forStatement | .whileStatement
  | .doWhileStatement | .switchStatement => true
  | _ => false

/-- The kinds of nodes that are no comments and have none below them. -/
def isQuiet (k : Kind) : Bool :=
  !k.holdsStatements && k ≠ .comment

/-- The kinds of nodes that may stand anywhere below a root: no whole files, and no errors. -/
def isInner (k : Kind) : Bool :=
  k ≠ .program && k ≠ .error

theorem isExpression_of_isTerm {k : Kind} (h : k.isTerm = true) : k.isExpression = true := by
  simp only [isTerm, Bool.and_eq_true] at h
  exact h.1

theorem eq_variableDeclarator : ∀ k : Kind, k.isDeclarator = true → k ≠ .functionDeclarator →
    k = .variableDeclarator := by
  decide

theorem isQuiet_of_isTerm : ∀ k : Kind, k.isTerm = true → k.isQuiet = true := by
  decide

theorem isQuiet_of_isExpression : ∀ k : Kind, k.isExpression = true → k.isQuiet = true := by
  decide

theorem isQuiet_of_isOptionalTerm : ∀ k : Kind, k.isOptionalTerm = true → k.isQuiet = true := by
  decide

theorem isQuiet_of_isMacroValue : ∀ k : Kind, k.isMacroValue = true → k.isQuiet = true := by
  decide

theorem isQuiet_of_isDeclarator : ∀ k : Kind, k.isDeclarator = true → k.isQuiet = true := by
  decide

/-- Quiet kinds have quiet children. -/
theorem isQuiet_of_admits {k : Kind} {value : Option Value} {below : List Kind}
    (hk : k.isQuiet = true) (h : k.admits value below = true) :
    ∀ c ∈ below, c.isQuiet = true := by
  have hname : isQuiet .identifier = true := by decide
  have hparameter : isQuiet .parameter = true := by decide
  have hmember : isQuiet .structMember = true := by decide
  have hstruct : isQuiet .structDefinition = true := by decide
  have hvariable : isQuiet .variableDeclarator = true := by decide
  have hfunction : isQuiet .functionDeclarator = true := by decide
  cases k
  all_goals try (exact absurd hk (by decide))
  all_goals simp [admits, each_nil, each_cons] at h
  all_goals grind [isQuiet_of_isTerm, isQuiet_of_isOptionalTerm, isQuiet_of_isDeclarator,
    isQuiet_of_isExpression, isQuiet_of_isMacroValue]

/-- Errors stand below nothing but a whole file. -/
theorem isInner_of_admits {k : Kind} {value : Option Value} {below : List Kind}
    (hk : k ≠ .program) (h : k.admits value below = true) : ∀ c ∈ below, c.isInner = true := by
  have hstatement : ∀ k : Kind, k.isStatement = true → k.isInner = true := by decide
  have hbody : ∀ k : Kind, k.isBody = true → k.isInner = true := by decide
  have hstart : ∀ k : Kind, k.isLoopStart = true → k.isInner = true := by decide
  have hexpression : ∀ k : Kind, k.isExpression = true → k.isInner = true := by decide
  have hterm : ∀ k : Kind, k.isTerm = true → k.isInner = true := by decide
  have hoptional : ∀ k : Kind, k.isOptionalTerm = true → k.isInner = true := by decide
  have hmacro : ∀ k : Kind, k.isMacroValue = true → k.isInner = true := by decide
  have hdeclarator : ∀ k : Kind, k.isDeclarator = true → k.isInner = true := by decide
  have hplain : isInner .structMember = true ∧ isInner .structDefinition = true ∧
      isInner .variableDeclarator = true ∧ isInner .functionDeclarator = true ∧
      isInner .block = true ∧ isInner .parameter = true ∧ isInner .identifier = true := by
    decide
  cases k
  case program => contradiction
  all_goals simp [admits, each_nil, each_cons] at h
  all_goals grind

end Kind

/-! ## Trees -/

/-- A tree whose nodes have the value and the children that their kinds ask for, each at a known
place. -/
inductive Fits (known : Position → Prop) : Node → Prop where
  | intro {kind : Kind} {value : Option Value} {children : List Node} {location : Position} :
      kind.admits value (children.map Node.kind) = true → known location →
      (∀ c ∈ children, Fits known c) → Fits known ⟨kind, value, children, location⟩

theorem mem_preorderAll {m : Node} {ns : List Node} :
    m ∈ preorderAll ns ↔ ∃ n ∈ ns, m ∈ n.preorder := by
  induction ns with
  | nil => simp [preorderAll]
  | cons n ns ih => simp [preorderAll, ih]

theorem preorderAll_append (ns ns' : List Node) :
    preorderAll (ns ++ ns') = preorderAll ns ++ preorderAll ns' := by
  induction ns with
  | nil => simp [preorderAll]
  | cons n ns ih => simp [preorderAll, ih]

theorem forall_preorder {P : Node → Prop} {n : Node} :
    (∀ m ∈ n.preorder, P m) ↔ P n ∧ ∀ c ∈ n.children, ∀ m ∈ c.preorder, P m := by
  obtain ⟨kind, value, children, location⟩ := n
  rw [Node.preorder, List.forall_mem_cons]
  refine and_congr_right fun _ => ⟨fun h c hc m hm => ?_, fun h m hm => ?_⟩
  · exact h m (mem_preorderAll.mpr ⟨c, hc, hm⟩)
  · obtain ⟨c, hc, hm⟩ := mem_preorderAll.mp hm
    exact h c hc m hm

section

variable {n : Node}

mutual

/-- The parts of a part are parts of the tree. -/
theorem preorder_subset : (t : Node) → n ∈ t.preorder → n.preorder ⊆ t.preorder
  | ⟨kind, value, children, location⟩, h => by
    rcases List.mem_cons.mp h with rfl | h
    · exact List.Subset.refl _
    · exact List.subset_cons_of_subset _ (preorderAll_subset children h)

theorem preorderAll_subset : (ns : List Node) → n ∈ preorderAll ns →
    n.preorder ⊆ preorderAll ns
  | m :: ns, h => by
    rcases List.mem_append.mp h with h | h
    · exact List.subset_append_of_subset_left _ (preorder_subset m h)
    · exact List.subset_append_of_subset_right _ (preorderAll_subset ns h)

end

end

/-- What fits fits all the way down. -/
theorem Fits.preorder {known : Position → Prop} {n m : Node} (h : n.Fits known)
    (hm : m ∈ n.preorder) : m.Fits known := by
  induction h with
  | @intro kind value children location hadmits hknown hchildren ih =>
      rcases List.mem_cons.mp hm with rfl | hm
      · exact .intro hadmits hknown hchildren
      · obtain ⟨c, hc, hm⟩ := mem_preorderAll.mp hm
        exact ih c hc hm

theorem Fits.known {known : Position → Prop} {n : Node} (h : n.Fits known) : known n.location := by
  cases h with
  | intro _ hknown _ => exact hknown

/-- No errors stand below the root of a tree that is no whole file. -/
theorem Fits.isInner {known : Position → Prop} {n m : Node} (h : n.Fits known)
    (hn : n.kind ≠ .program) (hm : m ∈ preorderAll n.children) : m.kind.isInner = true := by
  induction h generalizing m with
  | @intro kind value children location hadmits _ hchildren ih =>
      obtain ⟨c, hc, hm⟩ := mem_preorderAll.mp hm
      have hinner := Kind.isInner_of_admits hn hadmits c.kind (List.mem_map_of_mem hc)
      obtain ⟨ck, cv, cs, cl⟩ := c
      rcases List.mem_cons.mp hm with rfl | hm
      · exact hinner
      · have hprogram : ck ≠ .program := by
          rintro rfl
          contradiction
        exact ih _ hc hprogram hm

/-- All nodes below a node of a quiet kind are of quiet kinds. -/
theorem Fits.isQuiet {known : Position → Prop} {n m : Node} (h : n.Fits known)
    (hn : n.kind.isQuiet = true) (hm : m ∈ n.preorder) : m.kind.isQuiet = true := by
  induction h with
  | @intro kind value children location hadmits _ _ ih =>
      rcases List.mem_cons.mp hm with rfl | hm
      · exact hn
      · obtain ⟨c, hc, hm⟩ := mem_preorderAll.mp hm
        have hquiet := Kind.isQuiet_of_admits hn hadmits
        exact ih c hc (hquiet c.kind (List.mem_map_of_mem hc)) hm

mutual

/-- A tree has errors if one of its nodes is one. -/
theorem hasErrors_iff : (n : Node) → (n.hasErrors = true ↔ ∃ m ∈ n.preorder, m.kind = .error)
  | ⟨kind, value, children, location⟩ => by
    simp [hasErrors, preorder, anyHasErrors_iff children]

theorem anyHasErrors_iff : (ns : List Node) →
    (anyHasErrors ns = true ↔ ∃ m ∈ preorderAll ns, m.kind = .error)
  | [] => by simp [anyHasErrors, preorderAll]
  | n :: ns => by
    simp [anyHasErrors, preorderAll, hasErrors_iff n, anyHasErrors_iff ns, or_and_right, exists_or]

end

/-! ## Comments of a tree -/

/-- The comments among the nodes of some trees, tree after tree. -/
def commentsIn (ns : List Node) : List Node :=
  (preorderAll ns).filter fun n => n.kind = .comment

@[simp] theorem commentsIn_nil : commentsIn [] = [] := rfl

theorem commentsIn_append (ns ns' : List Node) :
    commentsIn (ns ++ ns') = commentsIn ns ++ commentsIn ns' := by
  simp [commentsIn, preorderAll_append]

theorem commentsIn_cons (n : Node) (ns : List Node) :
    commentsIn (n :: ns) = commentsIn [n] ++ commentsIn ns :=
  commentsIn_append [n] ns

@[simp] theorem commentsIn_cons_cons (n m : Node) (ns : List Node) :
    commentsIn (n :: m :: ns) = commentsIn [n] ++ commentsIn (m :: ns) :=
  commentsIn_cons n (m :: ns)

@[simp] theorem commentsIn_texted {kind : Kind} {text : String} {location : Position}
    {children : List Node} (h : kind ≠ .comment) :
    commentsIn [.texted kind text location children] = commentsIn children := by
  simp [commentsIn, preorderAll, preorder, Node.texted, h]

@[simp] theorem commentsIn_plain {kind : Kind} {location : Position} {children : List Node}
    (h : kind ≠ .comment) : commentsIn [.plain kind location children] = commentsIn children := by
  simp [commentsIn, preorderAll, preorder, Node.plain, h]

theorem commentsIn_of_isQuiet {known : Position → Prop} {ns : List Node}
    (h : ∀ n ∈ ns, n.Fits known ∧ n.kind.isQuiet = true) : commentsIn ns = [] := by
  apply List.filter_eq_nil_iff.mpr
  intro m hm hc
  obtain ⟨n, hn, hm⟩ := mem_preorderAll.mp hm
  have hquiet := (h n hn).1.isQuiet (h n hn).2 hm
  rw [of_decide_eq_true hc] at hquiet
  contradiction

/-- Comments have nothing below them. -/
theorem commentsIn_of_comments {known : Position → Prop} {ns : List Node}
    (h : ∀ n ∈ ns, n.Fits known ∧ n.kind = .comment) : commentsIn ns = ns := by
  induction ns with
  | nil =>
      rfl
  | cons n ns ih =>
      have hn : commentsIn [n] = [n] := by
        obtain ⟨⟨hadmits, -, -⟩, hk⟩ := h n (by simp)
        obtain rfl := hk
        simp only [Kind.admits, Bool.and_eq_true, List.isEmpty_iff, List.map_eq_nil_iff] at hadmits
        simp [commentsIn, preorderAll, preorder, hadmits.2]
      rw [commentsIn_cons, hn, ih fun m hm => h m (by simp [hm])]
      rfl

end CSurvey.Node
