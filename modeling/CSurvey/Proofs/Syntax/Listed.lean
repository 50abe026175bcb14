import CSurvey.Proofs.Syntax.Shape
import CSurvey.Proofs.Token.Rising

/-! # The order of nodes in a tree

A tree is walked from the root down. Which of its nodes a survey lists, and what is known of the
order of their places. A function definition may carry the struct definition of its type, and has it
as its last child, behind the body; so struct definitions stand in another order than in the text
where the body defines structs too. -/

namespace CSurvey.Node

/-! ## Nodes that are listed -/

/-- The lists of a survey. -/
inductive Family where
  | functions | variables | inclusions | macros | structs | comments
deriving DecidableEq, Repr

namespace Kind

/-- The list that nodes of a kind are in. -/
def family? : Kind → Option Family
  | .functionDefinition | .functionDeclaration => some .functions
  | .variableDeclaration => some .variables
  | .inclusion => some .inclusions
  | .macroDefinition => some .macros
  | .structDefinition => some .structs
  | .comment => some .comments
  | _ => none

/-- The kinds of nodes that are listed, comments aside. -/
def isListed (k : Kind) : Bool :=
  k.family?.isSome && k ≠ .comment

/-- The kinds of nodes that are not listed and have none below them that are. -/
def isSilent (k : Kind) : Bool :=
  !k.holdsStatements && !k.family?.isSome

theorem isSilent_of_isTerm : ∀ k : Kind, k.isTerm = true → k.isSilent = true := by
  decide

theorem isSilent_of_isExpression : ∀ k : Kind, k.isExpression = true → k.isSilent = true := by
  decide

theorem isSilent_of_isOptionalTerm : ∀ k : Kind, k.isOptionalTerm = true → k.isSilent = true := by
  decide

theorem isSilent_of_isMacroValue : ∀ k : Kind, k.isMacroValue = true → k.isSilent = true := by
  decide

theorem isSilent_of_isDeclarator : ∀ k : Kind, k.isDeclarator = true → k.isSilent = true := by
  decide

/-- Silent kinds have silent children. -/
theorem isSilent_of_admits {k : Kind} {value : Option Value} {below : List Kind}
    (hk : k.isSilent = true) (h : k.admits value below = true) :
    ∀ c ∈ below, c.isSilent = true := by
  have hname : isSilent .identifier = true := by decide
  have hparameter : isSilent .parameter = true := by decide
  cases k
  all_goals try (exact absurd hk (by decide))
  all_goals simp [admits, each_nil, each_cons] at h
  all_goals grind [isSilent_of_isTerm, isSilent_of_isOptionalTerm, isSilent_of_isDeclarator,
    isSilent_of_isExpression]

/-- So have the kinds that are listed as leaves. -/
theorem isSilent_below_leaf {k : Kind} {value : Option Value} {below : List Kind}
    (hk : k = .inclusion ∨ k = .macroDefinition ∨ k = .structDefinition)
    (h : k.admits value below = true) : ∀ c ∈ below, c.isSilent = true := by
  have hmember : isSilent .structMember = true := by decide
  rcases hk with rfl | rfl | rfl
  all_goals simp [admits, each_nil, each_cons] at h
  all_goals grind [isSilent_of_isMacroValue]

end Kind

/-- The listed nodes of some trees, tree after tree. -/
def listed (ns : List Node) : List Node :=
  (preorderAll ns).filter fun n => n.kind.isListed

@[simp] theorem listed_nil : listed [] = [] := rfl

theorem listed_append (ns ns' : List Node) : listed (ns ++ ns') = listed ns ++ listed ns' := by
  simp [listed, preorderAll_append]

theorem listed_cons (n : Node) (ns : List Node) : listed (n :: ns) = listed [n] ++ listed ns :=
  listed_append [n] ns

@[simp] theorem listed_cons_cons (n m : Node) (ns : List Node) :
    listed (n :: m :: ns) = listed [n] ++ listed (m :: ns) :=
  listed_cons n (m :: ns)

@[simp] theorem listed_texted {kind : Kind} {text : String} {location : Position}
    {children : List Node} (h : kind.isListed = false) :
    listed [.texted kind text location children] = listed children := by
  simp [listed, preorderAll, preorder, Node.texted, h]

@[simp] theorem listed_plain {kind : Kind} {location : Position} {children : List Node}
    (h : kind.isListed = false) :
    listed [.plain kind location children] = listed children := by
  simp [listed, preorderAll, preorder, Node.plain, h]

theorem listed_of_isListed {n : Node} (h : n.kind.isListed = true) :
    listed [n] = n :: listed n.children := by
  obtain ⟨kind, value, children, location⟩ := n
  simp only at h
  simp [listed, preorderAll, preorder, h]

/-- All nodes below a node of a silent kind are of silent kinds. -/
theorem Fits.isSilent {known : Position → Prop} {n m : Node} (h : n.Fits known)
    (hn : n.kind.isSilent = true) (hm : m ∈ n.preorder) : m.kind.isSilent = true := by
  induction h with
  | @intro kind value children location hadmits _ _ ih =>
      rcases List.mem_cons.mp hm with rfl | hm
      · exact hn
      · obtain ⟨c, hc, hm⟩ := mem_preorderAll.mp hm
        have hsilent := Kind.isSilent_of_admits hn hadmits
        exact ih c hc (hsilent c.kind (List.mem_map_of_mem hc)) hm

theorem listed_of_isSilent {known : Position → Prop} {ns : List Node}
    (h : ∀ n ∈ ns, n.Fits known ∧ n.kind.isSilent = true) : listed ns = [] := by
  apply List.filter_eq_nil_iff.mpr
  intro m hm hlisted
  obtain ⟨n, hn, hm⟩ := mem_preorderAll.mp hm
  have hsilent := (h n hn).1.isSilent (h n hn).2 hm
  simp only [Kind.isListed, Bool.and_eq_true] at hlisted
  simp [Kind.isSilent, hlisted.1] at hsilent

theorem listed_of_leaf {known : Position → Prop} {n : Node} (h : n.Fits known)
    (hn : n.kind = .inclusion ∨ n.kind = .macroDefinition ∨ n.kind = .structDefinition) :
    listed [n] = [n] := by
  have hlisted : n.kind.isListed = true := by
    rcases hn with hn | hn | hn
    · rw [hn]
      rfl
    · rw [hn]
      rfl
    · rw [hn]
      rfl
  rw [listed_of_isListed hlisted]
  obtain ⟨hadmits, -, hchildren⟩ := h
  have hsilent := Kind.isSilent_below_leaf hn hadmits
  rw [listed_of_isSilent fun c hc => ⟨hchildren c hc, hsilent c.kind (List.mem_map_of_mem hc)⟩]

/-- Comments are listed apart. -/
theorem listed_of_comments {known : Position → Prop} {ns : List Node}
    (h : ∀ n ∈ ns, n.Fits known ∧ n.kind = .comment) : listed ns = [] := by
  induction ns with
  | nil => rfl
  | cons n ns ih =>
      have hn : listed [n] = [] := by
        obtain ⟨⟨hadmits, -, -⟩, hk⟩ := h n (by simp)
        obtain rfl := hk
        simp only [Kind.admits, Bool.and_eq_true, List.isEmpty_iff, List.map_eq_nil_iff] at hadmits
        simp [listed, preorderAll, preorder, hadmits.2, Kind.isListed]
      rw [listed_cons, hn, ih fun m hm => h m (by simp [hm])]
      rfl

/-! ## Order -/

/-- The struct definitions among some nodes. -/
def structsOf (ns : List Node) : List Node :=
  ns.filter fun n => n.kind = .structDefinition

/-- The nodes that are no struct definitions. -/
def othersOf (ns : List Node) : List Node :=
  ns.filter fun n => n.kind ≠ .structDefinition

section

variable {n : Node} {ns ns' : List Node}

@[simp] theorem structsOf_append : structsOf (ns ++ ns') = structsOf ns ++ structsOf ns' :=
  List.filter_append _ _

@[simp] theorem othersOf_append : othersOf (ns ++ ns') = othersOf ns ++ othersOf ns' :=
  List.filter_append _ _

theorem structsOf_cons_of_ne (h : n.kind ≠ .structDefinition) :
    structsOf (n :: ns) = structsOf ns := by
  simp [structsOf, h]

theorem othersOf_cons_of_ne (h : n.kind ≠ .structDefinition) :
    othersOf (n :: ns) = n :: othersOf ns := by
  simp [othersOf, h]

theorem structsOf_of_structs (h : ∀ n ∈ ns, n.kind = .structDefinition) : structsOf ns = ns :=
  List.filter_eq_self.mpr fun n hn => by simpa using h n hn

theorem othersOf_of_structs (h : ∀ n ∈ ns, n.kind = .structDefinition) : othersOf ns = [] :=
  List.filter_eq_nil_iff.mpr fun n hn => by simpa using h n hn

theorem structsOf_of_others (h : ∀ n ∈ ns, n.kind ≠ .structDefinition) : structsOf ns = [] :=
  List.filter_eq_nil_iff.mpr fun n hn => by simpa using h n hn

theorem mem_othersOf : n ∈ othersOf ns ↔ n ∈ ns ∧ n.kind ≠ .structDefinition := by
  simp [othersOf]

theorem mem_structsOf : n ∈ structsOf ns ↔ n ∈ ns ∧ n.kind = .structDefinition := by
  simp [structsOf]

end

/-- No node stands before one that precedes it. -/
def Ascending (ns : List Node) : Prop :=
  ns.Pairwise fun n m => n.location ≤ m.location

instance (ns : List Node) : Decidable (Ascending ns) :=
  inferInstanceAs (Decidable (ns.Pairwise fun n m => n.location ≤ m.location))

/-- If the node is a function definition that carries a struct definition, there is no other one
below it. -/
def KeepsOrder (n : Node) : Prop :=
  n.kind = .functionDefinition → (∃ c ∈ n.children, c.kind = .structDefinition) →
    (structsOf (preorderAll n.children)).length = 1

instance (n : Node) : Decidable n.KeepsOrder :=
  inferInstanceAs (Decidable (n.kind = .functionDefinition →
    (∃ c ∈ n.children, c.kind = .structDefinition) →
      (structsOf (preorderAll n.children)).length = 1))

theorem keepsOrder_of_kind {n : Node} (h : n.kind ≠ .functionDefinition) : n.KeepsOrder :=
  fun hn => absurd hn h

/-- The nodes stand from one place to another, in their order up to struct definitions that function
definitions carry. -/
structure Laid (low high : Position) (ns : List Node) : Prop where
  bounds : ∀ n ∈ ns, low ≤ n.location ∧ n.location ≤ high
  others : Ascending (othersOf ns)
  structs : Ascending (structsOf ns) ↔ ∀ n ∈ ns, n.KeepsOrder

namespace Laid

variable {low middle high : Position} {ns ns' : List Node}

theorem nil : Laid low high [] :=
  ⟨by simp, .nil, iff_of_true .nil (by simp)⟩

theorem mono {low' high' : Position} (h : Laid low high ns) (hlow : low' ≤ low)
    (hhigh : high ≤ high') : Laid low' high' ns :=
  ⟨fun n hn => ⟨hlow.trans (h.bounds n hn).1, (h.bounds n hn).2.trans hhigh⟩, h.others, h.structs⟩

theorem single {n : Node} (hn : n.kind ≠ .functionDefinition) (hlow : low ≤ n.location)
    (hhigh : n.location ≤ high) : Laid low high [n] := by
  refine ⟨by simp [hlow, hhigh], (List.pairwise_singleton _ n).filter _, ?_⟩
  exact iff_of_true ((List.pairwise_singleton _ n).filter _) (by simpa using keepsOrder_of_kind hn)

theorem ascending_append {p : Node → Bool} (hns : ∀ n ∈ ns, n.location ≤ middle)
    (hns' : ∀ n ∈ ns', middle ≤ n.location) :
    Ascending ((ns ++ ns').filter p) ↔ Ascending (ns.filter p) ∧ Ascending (ns'.filter p) := by
  rw [Ascending, List.filter_append, List.pairwise_append]
  refine ⟨fun h => ⟨h.1, h.2.1⟩, fun h => ⟨h.1, h.2, fun n hn m hm => ?_⟩⟩
  exact (hns n (List.mem_filter.mp hn).1).trans (hns' m (List.mem_filter.mp hm).1)

theorem append (h : Laid low middle ns) (h' : Laid middle high ns') (hlow : low ≤ middle)
    (hhigh : middle ≤ high) : Laid low high (ns ++ ns') := by
  have hns : ∀ n ∈ ns, n.location ≤ middle := fun n hn => (h.bounds n hn).2
  have hns' : ∀ n ∈ ns', middle ≤ n.location := fun n hn => (h'.bounds n hn).1
  refine ⟨List.forall_mem_append.mpr ⟨(h.mono le_rfl hhigh).bounds, (h'.mono hlow le_rfl).bounds⟩,
    (ascending_append hns hns').mpr ⟨h.others, h'.others⟩, ?_⟩
  rw [List.forall_mem_append, ← h.structs, ← h'.structs]
  exact ascending_append hns hns'

/-- Nodes of which all but struct definitions stand at one place, with one of these at most. -/
theorem ofStart (hbounds : ∀ n ∈ ns, low ≤ n.location ∧ n.location ≤ high)
    (hothers : ∀ n ∈ othersOf ns, n.location = low) (hstructs : (structsOf ns).length ≤ 1)
    (hkeeps : ∀ n ∈ ns, n.KeepsOrder) : Laid low high ns := by
  have hascending : Ascending (structsOf ns) := by
    match hns : structsOf ns with
    | [] => exact .nil
    | [n] => exact List.pairwise_singleton _ n
    | _ :: _ :: _ => simp [hns] at hstructs
  refine ⟨hbounds, List.pairwise_iff_forall_sublist.mpr fun {n m} hsub => ?_,
    iff_of_true hascending hkeeps⟩
  have hn : n.location = low := hothers n (hsub.subset (by simp))
  have hm : m.location = low := hothers m (hsub.subset (by simp))
  rw [hn, hm]

end Laid

theorem structsOf_preorderAll (ns : List Node) :
    structsOf (preorderAll ns) = structsOf (listed ns) := by
  rw [structsOf, listed, structsOf, List.filter_filter]
  congr 1
  funext n
  by_cases hn : n.kind = .structDefinition
  · simp [hn, Kind.isListed, Kind.family?]
  · simp [hn]

/-- A function definition without a struct definition of its own leaves the order as it is. -/
theorem keepsOrder_of_none {type : String} {location : Position} {d code : Node}
    (hd : d.kind ≠ .structDefinition) (hcode : code.kind ≠ .structDefinition) :
    KeepsOrder (.texted .functionDefinition type location [d, code]) := by
  rintro - ⟨c, hc, hk⟩
  simp only [texted, List.mem_cons, List.not_mem_nil, or_false] at hc
  rcases hc with rfl | rfl
  · contradiction
  · contradiction

/-- The struct definition that a function definition carries is in order exactly where the body has
none. -/
theorem Laid.functionDefinition {low middle high : Position} {type : String} {d code body : Node}
    (hd : listed [d] = []) (hbody : listed [body] = [body]) (hk : body.kind = .structDefinition)
    (hlow : low ≤ body.location) (hmiddle : body.location < middle)
    (hhigh : middle ≤ high) (hcode : Laid middle high (listed [code])) :
    Laid low high
      (.texted .functionDefinition type low [d, code, body] :: (listed [code] ++ [body])) := by
  have hstruct : structsOf [body] = [body] := structsOf_of_structs (by simpa using hk)
  have hother : othersOf [body] = [] := othersOf_of_structs (by simpa using hk)
  have hbounds : ∀ n ∈ listed [code] ++ [body], low ≤ n.location ∧ n.location ≤ high := by
    refine List.forall_mem_append.mpr ⟨fun n hn => ?_, ?_⟩
    · have hn := hcode.bounds n hn
      exact ⟨hlow.trans (hmiddle.le.trans hn.1), hn.2⟩
    · simpa using ⟨hlow, hmiddle.le.trans hhigh⟩
  have hkeeps : KeepsOrder (.texted .functionDefinition type low [d, code, body]) ↔
      structsOf (listed [code]) = [] := by
    show (_ → _ → (structsOf (preorderAll [d, code, body])).length = 1) ↔ _
    rw [structsOf_preorderAll, listed_cons_cons, listed_cons_cons, hd, hbody, List.nil_append,
      structsOf_append, hstruct]
    simp [texted, hk]
  have hascending : Ascending (structsOf (listed [code]) ++ [body]) ↔
      structsOf (listed [code]) = [] := by
    refine ⟨fun h => List.eq_nil_iff_forall_not_mem.mpr fun n hn => ?_, fun h => ?_⟩
    · have hle := (List.pairwise_append.mp h).2.2 n hn body (by simp)
      have hmem := hcode.bounds n (mem_structsOf.mp hn).1
      exact absurd (hmiddle.trans_le (hmem.1.trans hle)) (lt_irrefl _)
    · rw [h]
      exact List.pairwise_singleton _ body
  refine ⟨List.forall_mem_cons.mpr ⟨⟨le_rfl, (hlow.trans hmiddle.le).trans hhigh⟩, hbounds⟩, ?_, ?_⟩
  · rw [othersOf_cons_of_ne (by simp [texted]), othersOf_append, hother, List.append_nil]
    refine List.pairwise_cons.mpr ⟨fun n hn => ?_, hcode.others⟩
    exact (hbounds n (List.mem_append_left _ (mem_othersOf.mp hn).1)).1
  · rw [structsOf_cons_of_ne (by simp [texted]), structsOf_append, hstruct, hascending,
      List.forall_mem_cons, hkeeps]
    refine ⟨fun h => ⟨h, List.forall_mem_append.mpr ⟨hcode.structs.mp ?_, ?_⟩⟩, fun h => h.1⟩
    · rw [h]
      exact .nil
    · simpa using keepsOrder_of_kind (by simp [hk])

end CSurvey.Node
