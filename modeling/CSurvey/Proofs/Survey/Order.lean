import Mathlib.Data.List.Basic
import CSurvey.Proofs.Grammar.Order
import CSurvey.Survey.Basic

/-! # The order of the lists of a survey

A survey lists nodes from the root of a tree down, and the trees that are read keep the order of the
source: so does every list of the survey, but for struct definitions that function definitions
carry. -/

namespace CSurvey

open Node (Ascending Family KeepsOrder Laid listed othersOf structsOf)

/-- The nodes of a family, in their order. -/
def Node.inFamily (family : Family) (ns : List Node) : List Node :=
  ns.filter fun n => n.kind.family? = some family

theorem Node.inFamily_append (family : Family) (ns ns' : List Node) :
    inFamily family (ns ++ ns') = inFamily family ns ++ inFamily family ns' :=
  List.filter_append _ _

theorem Node.inFamily_singleton (family : Family) (n : Node) :
    inFamily family [n] = if n.kind.family? = some family then [n] else [] := by
  simp [inFamily, List.filter_cons]

namespace Survey

open Node (inFamily inFamily_append inFamily_singleton)

/-! ## Lists of nodes -/

/-- The lists of the survey are the entries of these nodes, in their order. -/
structure Lists (a : Survey) (ns : List Node) : Prop where
  functions : a.functions = (inFamily .functions ns).map Node.functionEntry
  variableEntries : a.variableEntries = (inFamily .variables ns).map Node.variableEntry
  inclusions : a.inclusions = (inFamily .inclusions ns).map Node.textOrUnknown
  macros : a.macros = (inFamily .macros ns).map Node.macroEntry
  structs : a.structs = (inFamily .structs ns).map Node.structEntry
  comments : a.comments = (inFamily .comments ns).filterMap Node.text?

theorem Lists.note {a : Survey} {ns : List Node} (h : a.Lists ns) (n : Node) :
    (a.note n).Lists (ns ++ [n]) := by
  have hnodes : ∀ family, inFamily family (ns ++ [n]) =
      inFamily family ns ++ if n.kind.family? = some family then [n] else [] := by
    intro family
    rw [inFamily_append, inFamily_singleton]
  have htext : [n].filterMap Node.text? = n.text?.toList := by
    cases htext : n.text? <;> simp [htext]
  cases hk : n.kind
  all_goals
    constructor
    all_goals
      simp [Survey.note, hnodes, hk, Node.Kind.family?, htext, h.functions, h.variableEntries,
        h.inclusions, h.macros, h.structs, h.comments]

mutual

theorem Lists.add {a : Survey} {ns : List Node} (h : a.Lists ns) :
    (n : Node) → (a.add n).Lists (ns ++ n.preorder)
  | ⟨kind, value, children, location⟩ => by
    have hchildren := (h.note ⟨kind, value, children, location⟩).addAll children
    rwa [List.append_assoc] at hchildren

theorem Lists.addAll {a : Survey} {ns : List Node} (h : a.Lists ns) :
    (ms : List Node) → (a.addAll ms).Lists (ns ++ Node.preorderAll ms)
  | [] => by
    rw [Survey.addAll, Node.preorderAll, List.append_nil]
    exact h
  | n :: ms => by
    rw [Survey.addAll, Node.preorderAll, ← List.append_assoc]
    exact (h.add n).addAll ms

end

/-- The survey of a tree lists its nodes from the root down. -/
theorem ofNode_lists (n : Node) : (ofNode n).Lists n.preorder := by
  have hempty : Lists {} [] := ⟨rfl, rfl, rfl, rfl, rfl, rfl⟩
  exact hempty.add n

end Survey

/-! ## Trees in order -/

namespace Node

variable {ns : List Node}

theorem inFamily_preorderAll {family : Family} (h : family ≠ .comments) :
    inFamily family (preorderAll ns) = inFamily family (listed ns) := by
  rw [inFamily, inFamily, listed, List.filter_filter]
  apply List.filter_congr
  intro n hn
  by_cases hfamily : n.kind.family? = some family
  · have hlisted : n.kind.isListed = true := by
      have hcomment : n.kind ≠ .comment := by
        intro hk
        rw [hk] at hfamily
        exact h (Option.some.inj hfamily).symm
      simp [Kind.isListed, hfamily, hcomment]
    simp [hfamily, hlisted]
  · simp [hfamily]

theorem inFamily_structs (ns : List Node) : inFamily .structs ns = structsOf ns := by
  have hkind : ∀ k : Kind, k.family? = some .structs ↔ k = .structDefinition := by decide
  apply List.filter_congr
  intro n hn
  simp [hkind]

theorem inFamily_comments (ns : List Node) :
    inFamily .comments (preorderAll ns) = commentsIn ns := by
  have hkind : ∀ k : Kind, k.family? = some .comments ↔ k = .comment := by decide
  apply List.filter_congr
  intro n hn
  simp [hkind]

/-- Only struct definitions are in the list of structs. -/
theorem inFamily_sublist {family : Family} (h : family ≠ .structs) :
    (inFamily family ns).Sublist (othersOf ns) := by
  apply List.monotone_filter_right ns
  intro n hn
  have hkind : n.kind ≠ .structDefinition := by
    intro hk
    simp only [hk, decide_eq_true_eq] at hn
    exact h (Option.some.inj hn).symm
  simpa using hkind

variable {low high : Position}

theorem Laid.ascending {family : Family} (h : Laid low high (listed ns))
    (hcomments : Ascending (commentsIn ns)) (hfamily : family ≠ .structs) :
    Ascending (inFamily family (preorderAll ns)) := by
  by_cases hcomment : family = .comments
  · rw [hcomment, inFamily_comments]
    exact hcomments
  · rw [inFamily_preorderAll hcomment]
    exact h.others.sublist (inFamily_sublist hfamily)

theorem Laid.ascending_structs_iff (h : Laid low high (listed ns)) :
    Ascending (inFamily .structs (preorderAll ns)) ↔ ∀ n ∈ preorderAll ns, n.KeepsOrder := by
  rw [inFamily_structs, structsOf_preorderAll, h.structs]
  refine ⟨fun hkeeps n hn => ?_, fun hkeeps n hn => hkeeps n (List.mem_filter.mp hn).1⟩
  by_cases hk : n.kind = .functionDefinition
  · have hlisted : n.kind.isListed = true := by
      rw [hk]
      rfl
    exact hkeeps n (List.mem_filter.mpr ⟨hn, hlisted⟩)
  · exact keepsOrder_of_kind hk

/-- The nodes of a tree whose root is not listed, and in which all that is listed is in order. -/
theorem Laid.ascending_preorder {root : Node} (h : Laid low high (listed root.children))
    (hcomments : Ascending (commentsIn root.children)) (hroot : root.kind.family? = none) :
    (∀ family, family ≠ .structs → Ascending (inFamily family root.preorder)) ∧
      (Ascending (inFamily .structs root.preorder) ↔ ∀ n ∈ root.preorder, n.KeepsOrder) := by
  obtain ⟨kind, value, children, location⟩ := root
  have hnodes : ∀ family, inFamily family (preorder ⟨kind, value, children, location⟩) =
      inFamily family (preorderAll children) := by
    intro family
    apply List.filter_cons_of_neg
    simp [show kind.family? = none from hroot]
  have hkeeps : KeepsOrder ⟨kind, value, children, location⟩ := by
    apply keepsOrder_of_kind
    rintro rfl
    contradiction
  refine ⟨fun family hfamily => ?_, ?_⟩
  · rw [hnodes]
    exact h.ascending hcomments hfamily
  · rw [hnodes, h.ascending_structs_iff, preorder, List.forall_mem_cons]
    exact (and_iff_right hkeeps).symm

end Node

/-! ## Whole files -/

namespace Grammar

/-- The reading of a source begins in order. -/
theorem Progress.inOrder_ofTokens {source : String} {tokens : List Token}
    (h : tokenize source = .ok tokens) (limit : Nat) :
    Progress.InOrder (State.ofTokens tokens limit).front.location (commentNodes tokens)
      ⟨[], [], State.ofTokens tokens limit⟩ := by
  have hrising := rising_of_tokenize h
  obtain ⟨inner, rfl, hinner⟩ := (tiles_of_tokenize h).ending
  rw [State.ofTokens_closed _ limit fun t ht => (hinner t ht).kind_ne]
  have hmap := List.pairwise_map.mpr hrising
  rw [List.map_append] at hmap
  have hend : commentNodes [.endOfInput (.behind ([] ++ source.toList))] = [] := rfl
  refine ⟨⟨fun _ _ => trivial, trivial, by simp⟩, rfl, hmap, le_rfl, ?_, .nil⟩
  rw [commentNodes_append, hend, List.append_nil]
  rfl

theorem ascending_commentNodes {tokens : List Token}
    (h : tokens.Pairwise fun t u => t.location < u.location) : Ascending (commentNodes tokens) :=
  List.pairwise_map.mpr ((h.filter _).imp le_of_lt)

theorem Progress.InOrder.comments_ascending {start : Position} {tokens : List Token} {p : Progress}
    (h : p.InOrder start (commentNodes tokens))
    (hrising : tokens.Pairwise fun t u => t.location < u.location) :
    Ascending (Node.commentsIn p.nodes.reverse) := by
  have hcomments : (Node.commentsIn p.nodes.reverse).Sublist (commentNodes tokens) := by
    rw [← h.comments]
    exact List.sublist_append_left _ _
  exact (ascending_commentNodes hrising).sublist hcomments

end Grammar

open Grammar

/-- The lists of a survey are those of the nodes of the tree, from the root down. They follow the
source, list by list, but for structs: a function definition has the struct definition of its type
behind its body, so these follow the source exactly where no function definition that carries one
has others in its body. -/
theorem survey_follows {source : String} {tokens : List Token}
    (h : tokenize source = .ok tokens) (options : ParseSettings) :
    let root := (parse tokens options).root
    (Survey.ofNode root).Lists root.preorder ∧
      (∀ family, family ≠ .structs → Ascending (Node.inFamily family root.preorder)) ∧
      (Ascending (Node.inFamily .structs root.preorder) ↔ ∀ n ∈ root.preorder, n.KeepsOrder) := by
  intro root
  refine ⟨Survey.ofNode_lists root, ?_⟩
  let start := State.ofTokens tokens options.maxNesting
  have hends : (readFile (.forTokens start.rest) tokens options).Ends
      (Progress.InOrder start.front.location (commentNodes tokens)) fun _ _ => True :=
    readItems_inOrder (Progress.inOrder_ofTokens h options.maxNesting)
  have hroot : root = (readFile (.forTokens start.rest) tokens options).parsed.root :=
    congrArg Parsed.root (parse_eq_parsed tokens options)
  rw [hroot]
  generalize readFile (.forTokens start.rest) tokens options = ending at hends
  cases ending with
  | complete p =>
      have hcomments := Progress.InOrder.comments_ascending hends (rising_of_tokenize h)
      exact Progress.InOrder.laid hends |>.ascending_preorder hcomments rfl
  | stopped failure state =>
      have hlaid : Laid start.front.location start.front.location
          (listed (errorNode failure).children) := .nil
      exact hlaid.ascending_preorder .nil rfl

/-- A function definition that carries a struct, with another struct behind it. -/
theorem survey_follows_carried :
    let tokens : List Token := [⟨.keyword .structKw, "struct", ⟨1, 1⟩⟩,
      ⟨.identifier, "A", ⟨1, 8⟩⟩, ⟨.delimiter .leftBrace, "\x7b", ⟨1, 9⟩⟩,
      ⟨.delimiter .rightBrace, "\x7d", ⟨1, 10⟩⟩, ⟨.identifier, "f", ⟨1, 11⟩⟩,
      ⟨.delimiter .leftParen, "(", ⟨1, 12⟩⟩, ⟨.delimiter .rightParen, ")", ⟨1, 13⟩⟩,
      ⟨.delimiter .leftBrace, "\x7b", ⟨1, 14⟩⟩, ⟨.delimiter .rightBrace, "\x7d", ⟨1, 15⟩⟩,
      ⟨.keyword .structKw, "struct", ⟨1, 16⟩⟩, ⟨.identifier, "B", ⟨1, 23⟩⟩,
      ⟨.delimiter .leftBrace, "\x7b", ⟨1, 24⟩⟩, ⟨.delimiter .rightBrace, "\x7d", ⟨1, 25⟩⟩,
      ⟨.delimiter .semicolon, ";", ⟨1, 26⟩⟩, .endOfInput ⟨1, 27⟩]
    let root := (parse tokens {}).root
    tokenize "struct A\x7b\x7df()\x7b\x7dstruct B\x7b\x7d;" = .ok tokens ∧
      (∀ n ∈ root.preorder, n.KeepsOrder) ∧ (Survey.ofNode root).structs = [⟨"A", 0⟩, ⟨"B", 0⟩] ∧
      (Survey.ofNode root).Lists root.preorder ∧
      (∀ family, family ≠ .structs → Ascending (Node.inFamily family root.preorder)) ∧
      Ascending (Node.inFamily .structs root.preorder) := by
  intro tokens root
  have htokens : tokenize "struct A\x7b\x7df()\x7b\x7dstruct B\x7b\x7d;" = .ok tokens := rfl
  obtain ⟨hlists, hothers, hstructs⟩ := survey_follows htokens {}
  have hkeeps : ∀ n ∈ root.preorder, n.KeepsOrder := by decide +kernel
  exact ⟨htokens, hkeeps, by decide +kernel, hlists, hothers, hstructs.mpr hkeeps⟩

/-- Where the body of a function defines a struct and its type another one, the later one is listed
first. -/
theorem survey_not_follows :
    ¬ ∀ (source : String) (tokens : List Token) (options : ParseSettings),
      tokenize source = .ok tokens →
        ∀ family, Ascending (Node.inFamily family (parse tokens options).root.preorder) := by
  intro h
  have hstructs := h "struct A\x7b\x7df()\x7bstruct B\x7b\x7db;\x7d"
    [⟨.keyword .structKw, "struct", ⟨1, 1⟩⟩, ⟨.identifier, "A", ⟨1, 8⟩⟩,
      ⟨.delimiter .leftBrace, "\x7b", ⟨1, 9⟩⟩, ⟨.delimiter .rightBrace, "\x7d", ⟨1, 10⟩⟩,
      ⟨.identifier, "f", ⟨1, 11⟩⟩, ⟨.delimiter .leftParen, "(", ⟨1, 12⟩⟩,
      ⟨.delimiter .rightParen, ")", ⟨1, 13⟩⟩, ⟨.delimiter .leftBrace, "\x7b", ⟨1, 14⟩⟩,
      ⟨.keyword .structKw, "struct", ⟨1, 15⟩⟩, ⟨.identifier, "B", ⟨1, 22⟩⟩,
      ⟨.delimiter .leftBrace, "\x7b", ⟨1, 23⟩⟩, ⟨.delimiter .rightBrace, "\x7d", ⟨1, 24⟩⟩,
      ⟨.identifier, "b", ⟨1, 25⟩⟩, ⟨.delimiter .semicolon, ";", ⟨1, 26⟩⟩,
      ⟨.delimiter .rightBrace, "\x7d", ⟨1, 27⟩⟩, .endOfInput ⟨1, 28⟩] {} rfl .structs
  exact absurd hstructs (by decide +kernel)

end CSurvey
