import CSurvey.Proofs.Grammar.Errors
import CSurvey.Survey.Basic

/-! # The trees of parsed files

Every node of a parsed file has the value and the children that its kind asks for, and stands at a
place of the tokens. So a survey finds in it all that it asks for. -/

namespace CSurvey

/-! ## What a survey asks for -/

namespace Node

/-- Whether a node says what a survey takes from a node of its kind: its own text, and those of the
declarator in front of its children and of the parameters below that. -/
def tells (n : Node) : Bool :=
  match n.kind with
  | .functionDefinition | .functionDeclaration =>
    n.text?.isSome && (n.leading? .functionDeclarator).any fun d =>
      d.text?.isSome && d.children.all fun c => c.text?.isSome
  | .variableDeclaration =>
    n.text?.isSome && (n.leading? .variableDeclarator).any fun d => d.text?.isSome
  | .inclusion | .macroDefinition | .structDefinition | .comment => n.text?.isSome
  | _ => true

/-- The kinds of nodes whose texts a survey takes. -/
def Kind.isTold : Kind → Bool
  | .functionDefinition | .functionDeclaration | .variableDeclaration | .functionDeclarator
  | .variableDeclarator | .parameter | .inclusion | .macroDefinition | .structDefinition
  | .comment => true
  | _ => false

theorem Kind.hasText_of_admits {k : Kind} {value : Option Value} {below : List Kind}
    (hk : k.isTold = true) (h : k.admits value below = true) : hasText value = true := by
  cases k
  all_goals first
    | exact absurd hk (by decide)
    | exact (Bool.and_eq_true_iff.mp h).1

/-- A function comes with its declarator first. -/
theorem Kind.head_of_function {k : Kind} {value : Option Value} {below : List Kind}
    (hk : k = .functionDefinition ∨ k = .functionDeclaration) (h : k.admits value below = true) :
    below.head? = some .functionDeclarator := by
  rcases hk with rfl | rfl
  · simp only [admits, Bool.and_eq_true, Bool.or_eq_true, each_cons] at h
    obtain ⟨-, ⟨k, more, rfl, hk, -⟩ | ⟨k, more, rfl, hk, -⟩⟩ := h
    · exact congrArg some (of_decide_eq_true hk)
    · exact congrArg some (of_decide_eq_true hk)
  · simp only [admits, Bool.and_eq_true, Bool.or_eq_true, each_cons] at h
    obtain ⟨-, ⟨k, more, rfl, hk, -⟩ | ⟨k, more, rfl, hk, -⟩⟩ := h
    · exact congrArg some (of_decide_eq_true hk)
    · exact congrArg some (of_decide_eq_true hk)

/-- So does a variable. -/
theorem Kind.head_of_variable {value : Option Value} {below : List Kind}
    (h : Kind.variableDeclaration.admits value below = true) :
    below.head? = some .variableDeclarator := by
  simp only [admits, Bool.and_eq_true, Bool.or_eq_true, each_cons] at h
  obtain ⟨-, ((⟨k, more, rfl, hk, -⟩ | ⟨k, more, rfl, hk, -⟩) | ⟨k, more, rfl, hk, -⟩) |
    ⟨k, more, rfl, hk, -⟩⟩ := h
  all_goals exact congrArg some (of_decide_eq_true hk)

variable {known : Position → Prop} {n : Node}

theorem Fits.admits (h : n.Fits known) :
    n.kind.admits n.value (n.children.map Node.kind) = true := by
  cases h with
  | intro hadmits _ _ => exact hadmits

theorem Fits.children (h : n.Fits known) : ∀ c ∈ n.children, c.Fits known := by
  cases h with
  | intro _ _ hchildren => exact hchildren

theorem Fits.isSome_text? (h : n.Fits known) (hk : n.kind.isTold = true) :
    n.text?.isSome = true := by
  have htext := Kind.hasText_of_admits hk h.admits
  unfold Kind.hasText at htext
  unfold text?
  split at htext
  · simp_all
  · contradiction

theorem leading?_of_head {kind : Kind} (h : (n.children.map Node.kind).head? = some kind) :
    ∃ d ∈ n.children, d.kind = kind ∧ n.leading? kind = some d := by
  unfold leading?
  cases hchildren : n.children with
  | nil => simp [hchildren] at h
  | cons d more =>
      have hd : d.kind = kind := by simpa [hchildren] using h
      exact ⟨d, List.mem_cons_self .., hd, by simp [hd]⟩

theorem Fits.tells_function (h : n.Fits known)
    (hk : n.kind = .functionDefinition ∨ n.kind = .functionDeclaration) : n.tells = true := by
  obtain ⟨d, hd, hkind, hleading⟩ := leading?_of_head (Kind.head_of_function hk h.admits)
  have hdeclarator := h.children d hd
  have hparameters : ∀ c ∈ d.children, c.kind = .parameter := by
    have hadmits := hdeclarator.admits
    rw [hkind] at hadmits
    simpa [Kind.admits] using (Bool.and_eq_true_iff.mp hadmits).2
  have htexts : ∀ c ∈ d.children, c.text?.isSome = true := fun c hc =>
    (hdeclarator.children c hc).isSome_text? (by rw [hparameters c hc]; rfl)
  have htext := h.isSome_text? (by rcases hk with hk | hk <;> rw [hk] <;> rfl)
  have hname := hdeclarator.isSome_text? (by rw [hkind]; rfl)
  rcases hk with hk | hk
  · simpa [Node.tells, hk, hleading, htext, hname] using htexts
  · simpa [Node.tells, hk, hleading, htext, hname] using htexts

theorem Fits.tells_variable (h : n.Fits known) (hk : n.kind = .variableDeclaration) :
    n.tells = true := by
  have hadmits := h.admits
  rw [hk] at hadmits
  obtain ⟨d, hd, hkind, hleading⟩ := leading?_of_head (Kind.head_of_variable hadmits)
  have htext := h.isSome_text? (by rw [hk]; rfl)
  have hname := (h.children d hd).isSome_text? (by rw [hkind]; rfl)
  simp [Node.tells, hk, hleading, htext, hname]

/-- A node of the shape that its kind asks for says what a survey takes from it. -/
theorem Fits.tells (h : n.Fits known) : n.tells = true := by
  obtain ⟨kind, value, children, location⟩ := n
  cases kind with
  | functionDefinition => exact h.tells_function (.inl rfl)
  | functionDeclaration => exact h.tells_function (.inr rfl)
  | variableDeclaration => exact h.tells_variable rfl
  | inclusion => exact h.isSome_text? rfl
  | macroDefinition => exact h.isSome_text? rfl
  | structDefinition => exact h.isSome_text? rfl
  | comment => exact h.isSome_text? rfl
  | _ => rfl

end Node

namespace Grammar

open Node (Kind)

variable {known : Position → Prop}

/-! ## Files -/

/-- The state before some tokens gives no place but theirs. -/
theorem State.ofTokens_within {tokens : List Token} (limit : Nat) (hne : tokens ≠ [])
    (h : ∀ t ∈ tokens, known t.location) : (State.ofTokens tokens limit).Within known := by
  have hlast := List.getLast?_eq_some_getLast hne
  have hmem := List.getLast_mem hne
  generalize tokens.getLast hne = last at hlast hmem
  let closed := if last.kind = .endOfInput then tokens else tokens ++ [.endOfInput last.location]
  have hclosed : (∀ t ∈ closed, known t.location) ∧ ∃ t ∈ closed, t.kind = .endOfInput := by
    by_cases hend : last.kind = .endOfInput
    · simp only [closed, if_pos hend]
      exact ⟨h, last, hmem, hend⟩
    · simp only [closed, if_neg hend]
      refine ⟨fun t ht => ?_, .endOfInput last.location, by simp, rfl⟩
      rcases List.mem_append.mp ht with ht | ht
      · exact h t ht
      · rw [List.mem_singleton.mp ht]
        exact h last hmem
  obtain ⟨hknown, final, hfinal, hkind⟩ := hclosed
  have hstop : known (((closed.dropWhile fun t => t.kind ≠ .endOfInput).head?.map
      Token.location).getD .start) := by
    cases hclosing : closed.dropWhile fun t => t.kind ≠ .endOfInput with
    | nil =>
        have hnone := List.dropWhile_eq_nil_iff.mp hclosing final hfinal
        simp [hkind] at hnone
    | cons t more =>
        apply hknown
        apply (List.dropWhile_suffix fun t : Token => decide (t.kind ≠ .endOfInput)).mem
        rw [hclosing]
        exact List.mem_cons_self ..
  have hstate : State.ofTokens tokens limit =
      ⟨closed.takeWhile fun t => t.kind ≠ .endOfInput,
        ((closed.dropWhile fun t => t.kind ≠ .endOfInput).head?.map Token.location).getD .start,
        limit, 0, false, [], []⟩ := by
    simp only [State.ofTokens, hlast, closed]
  rw [hstate]
  exact ⟨fun t ht => hknown t ((List.takeWhile_prefix _).mem ht), hstop, by simp⟩

end Grammar

open Grammar
open Node (Fits Kind)

theorem parse_nil (options : ParseSettings) :
    (parse [] options).root = .plain .program .start [] := by
  have hstart : State.ofTokens [] options.maxNesting =
      ⟨[], .start, options.maxNesting, 0, false, [], []⟩ := rfl
  rw [parse_eq_parsed, readFile, hstart]
  dsimp only
  rw [readItems_nil]
  rfl

/-- A parsed file is a list of its parts, or without recovery the error that ended it. All nodes
have the values and the children that their kinds ask for and stand at places of the tokens, and a
survey finds in each what it takes from a node of its kind. -/
theorem parse_shape (tokens : List Token) (options : ParseSettings) :
    let root := (parse tokens options).root
    let given := fun l => ∃ t ∈ tokens, t.location = l
    (root.kind = .program ∧ root.value = none ∧ root.location = .start ∧
          (∀ c ∈ root.children, c.Fits given ∧ c.kind.isItem = true) ∨
        options.recover = false ∧ root.kind = .error ∧ root.Fits given) ∧
      ∀ n ∈ root.preorder, n.tells = true := by
  intro root given
  have hshape : (∃ children, root = .plain .program .start children ∧
        AreOf given Kind.isItem children) ∨
      options.recover = false ∧ root.kind = .error ∧ root.Fits given := by
    by_cases hnone : tokens = []
    · subst hnone
      exact .inl ⟨[], parse_nil options, .nil⟩
    · let start := State.ofTokens tokens options.maxNesting
      have hwithin : start.Within given :=
        State.ofTokens_within _ hnone fun t ht => ⟨t, ht, rfl⟩
      have hsound := readFile_sound (2 * start.rest.length + 2) hwithin
      have hroot : root = (readFile (.forTokens start.rest) tokens options).parsed.root :=
        congrArg Parsed.root (parse_eq_parsed tokens options)
      rw [hroot]
      cases hread : readFile (.forTokens start.rest) tokens options with
      | complete p =>
          have hends : (Ending.complete p).Sound given options.recover := hread ▸ hsound
          exact .inl ⟨p.nodes.reverse, rfl, hends.1.items.reverse⟩
      | stopped failure state =>
          have hends : (Ending.stopped failure state).Sound given options.recover := hread ▸ hsound
          have herror := Progress.InStep.errorNode_isOf hends.2
          exact .inr ⟨hends.1, rfl, herror.1⟩
  rcases hshape with ⟨children, hroot, hchildren⟩ | ⟨hrecover, hkind, hfits⟩
  · rw [hroot]
    refine ⟨.inl ⟨rfl, rfl, rfl, hchildren⟩, fun n hn => ?_⟩
    rcases List.mem_cons.mp hn with rfl | hn
    · rfl
    · obtain ⟨c, hc, hn⟩ := Node.mem_preorderAll.mp hn
      exact ((hchildren c hc).1.preorder hn).tells
  · exact ⟨.inr ⟨hrecover, hkind, hfits⟩, fun n hn => (hfits.preorder hn).tells⟩

end CSurvey
