import CSurvey.Proofs.Grammar.Comments
import CSurvey.Proofs.Members.Soundness
import CSurvey.Proofs.Syntax.Listed

/-! # Keywords that open branches

Each of the keywords `if`, `for` and `while` that is read belongs to one node of a branch: the
grammar of expressions, types and declarators has none of them, and each statement takes the one
that it begins with. Struct bodies and directive lines pass over tokens of any kind, so there are
none of them here. -/

namespace CSurvey

/-- Whether a keyword belongs to a branch, and only to one. -/
def Token.Kind.opensBranch : Token.Kind → Bool
  | .keyword .ifKw | .keyword .forKw | .keyword .whileKw => true
  | _ => false

/-! ## Words of expressions and declarators -/

/-- No word opens a branch. -/
def Quiet (ws : List Word) : Prop :=
  ∀ w ∈ ws, w.1.opensBranch = false

/-- No word opens a struct. -/
def Structless (ws : List Word) : Prop :=
  ∀ w ∈ ws, w.1 ≠ .keyword .structKw

namespace Token.Kind

variable {k : Token.Kind}

@[simp] theorem opensBranch_operator (o : Operator) : opensBranch (.operator o) = false := rfl

@[simp] theorem opensBranch_delimiter (d : Delimiter) : opensBranch (.delimiter d) = false := rfl

@[simp] theorem opensBranch_identifier : opensBranch .identifier = false := rfl

theorem opensBranch_of_startsType (h : k.startsType = true) : k.opensBranch = false := by
  cases k with
  | keyword word => cases word <;> first | rfl | contradiction
  | _ => rfl

theorem opensBranch_of_isQualifier (h : k.isQualifier = true) : k.opensBranch = false := by
  cases k with
  | keyword word => cases word <;> first | rfl | contradiction
  | _ => rfl

end Token.Kind

section

variable {w : Word} {ws us : List Word}

@[simp] theorem quiet_nil : Quiet [] := by
  simp [Quiet]

@[simp] theorem quiet_cons : Quiet (w :: ws) ↔ w.1.opensBranch = false ∧ Quiet ws :=
  List.forall_mem_cons

@[simp] theorem quiet_append : Quiet (ws ++ us) ↔ Quiet ws ∧ Quiet us :=
  List.forall_mem_append

@[simp] theorem structless_cons :
    Structless (w :: ws) ↔ w.1 ≠ .keyword .structKw ∧ Structless ws :=
  List.forall_mem_cons

@[simp] theorem structless_append : Structless (ws ++ us) ↔ Structless ws ∧ Structless us :=
  List.forall_mem_append

variable {Body : List Word → Prop}

theorem NamesSpecifier.quiet {type : String} (h : NamesSpecifier Body type ws)
    (hws : Structless ws) : Quiet ws := by
  obtain ⟨hmodifiers, hbase, -⟩ := h
  refine quiet_append.mpr ⟨fun w hw => Token.Kind.opensBranch_of_startsType ?_, ?_⟩
  · simp [Token.Kind.startsType, hmodifiers w hw]
  · cases hbase with
    | base hw => simpa using Token.Kind.opensBranch_of_startsType (by simp [Token.Kind.startsType, hw])
    | struct hk => simp [hk] at hws
    | absent => exact quiet_nil

theorem NamesType.quiet {type : String} (h : NamesType Body type ws) (hws : Structless ws) :
    Quiet ws := by
  induction h with
  | plain h => exact h.quiet hws
  | star hw _ ih => simp_all

theorem Separated.quiet {lists : List (List Word)} (h : Separated lists ws)
    (hws : Structless ws) (hall : ∀ vs ∈ lists, Structless vs → Quiet vs) : Quiet ws := by
  induction h with
  | none => exact quiet_nil
  | one ws => exact hall ws (by simp) hws
  | more hcomma _ ih => simp_all

/-- No word of an expression opens a branch. -/
theorem Derives.quiet {tier : Tier} {t : Node} (h : Derives (NamesType Body) tier t ws)
    (hws : Structless ws) : Quiet ws := by
  induction h with
  | number hw => simp [hw, Token.Kind.opensBranch]
  | character hw => simp [hw, Token.Kind.opensBranch]
  | strings h =>
      intro w hw
      rw [h w hw]
      rfl
  | call ho hc hgs _ _ ihf ih =>
      have hgiven := hgs.quiet (by simp_all) fun vs hvs => by
        obtain ⟨p, hp, rfl⟩ := List.mem_map.mp hvs
        exact ih p hp
      simp_all
  | sizeOfType hk ho hc ht =>
      have hquiet := ht.quiet (by simp_all)
      simp_all [Token.Kind.opensBranch]
  | sizeOf hk _ _ ih => simp_all [Token.Kind.opensBranch]
  | cast ho hc ht _ ih =>
      have hquiet := ht.quiet (by simp_all)
      simp_all
  | binary hop _ _ iha ihb =>
      obtain ⟨o, ho, -⟩ := Grammar.exists_operator_of_isOfLevel hop
      simp_all
  | assignment hop _ _ iha ihb =>
      obtain ⟨o, ho⟩ := Token.Kind.exists_operator_of_isAssignment hop
      simp_all
  | _ => simp_all

theorem SizeWords.quiet (h : SizeWords (NamesType Body) ws) (hws : Structless ws) : Quiet ws := by
  induction h with
  | none => exact quiet_nil
  | absent ho hc _ ih => simp_all
  | size ho hc hes _ ih =>
      have hquiet := hes.quiet (by simp_all)
      simp_all

theorem PointerWords.quiet (h : PointerWords ws) : Quiet ws := by
  induction h with
  | none => exact quiet_nil
  | star hw hqualifiers _ ih =>
      have hquiet : Quiet _ := fun q hq => Token.Kind.opensBranch_of_isQualifier (hqualifiers q hq)
      simp_all

theorem ParameterWords.quiet (h : ParameterWords (NamesType Body) ws) (hws : Structless ws) :
    Quiet ws := by
  cases h with
  | unnamed hts hsizes =>
      obtain ⟨hts', hsizes'⟩ := structless_append.mp hws
      exact quiet_append.mpr ⟨hts.quiet hts', hsizes.quiet hsizes'⟩
  | named hts hname hsizes =>
      have htype := hts.quiet (by simp_all)
      have hquiet := hsizes.quiet (by simp_all)
      simp_all

theorem ParametersWords.quiet (h : ParametersWords (NamesType Body) ws) (hws : Structless ws) :
    Quiet ws := by
  induction h with
  | further ha hb hc => simp [ha, hb, hc]
  | last h => exact h.quiet hws
  | more hc h _ ih =>
      have hquiet := h.quiet (by simp_all)
      simp_all

theorem DeclaratorWords.quiet (h : DeclaratorWords (NamesType Body) ws) (hws : Structless ws) :
    Quiet ws := by
  cases h with
  | object hstars hname hsizes =>
      have hpointers := hstars.quiet
      have hquiet := hsizes.quiet (by simp_all)
      simp_all
  | procedure hstars hname ho hc =>
      have hpointers := hstars.quiet
      simp_all
  | function hstars hname ho hc hparams =>
      have hpointers := hstars.quiet
      have hquiet := hparams.quiet (by simp_all)
      simp_all

end

/-! ## Nodes of branches -/

namespace Node

/-- How many nodes of some trees are branches. -/
def branches (ns : List Node) : Nat :=
  (preorderAll ns).countP fun n => n.kind.isBranch

@[simp] theorem branches_nil : branches [] = 0 := rfl

@[simp] theorem branches_append (ns ms : List Node) :
    branches (ns ++ ms) = branches ns + branches ms := by
  simp [branches, preorderAll_append]

@[simp] theorem branches_cons_cons (n m : Node) (ns : List Node) :
    branches (n :: m :: ns) = branches [n] + branches (m :: ns) :=
  branches_append [n] (m :: ns)

theorem branches_cons (n : Node) (ns : List Node) :
    branches (n :: ns) = branches [n] + branches ns :=
  branches_append [n] ns

theorem branches_singleton (n : Node) :
    branches [n] = (if n.kind.isBranch then 1 else 0) + branches n.children := by
  obtain ⟨kind, value, children, location⟩ := n
  simp [branches, preorderAll, preorder, List.countP_cons, Nat.add_comm]

@[simp] theorem branches_texted (kind : Kind) (text : String) (location : Position)
    (children : List Node) : branches [.texted kind text location children] =
      (if kind.isBranch then 1 else 0) + branches children :=
  branches_singleton _

@[simp] theorem branches_plain (kind : Kind) (location : Position) (children : List Node) :
    branches [.plain kind location children] =
      (if kind.isBranch then 1 else 0) + branches children :=
  branches_singleton _

@[simp] theorem branches_reverse (ns : List Node) : branches ns.reverse = branches ns := by
  induction ns with
  | nil => rfl
  | cons n ns ih =>
      rw [List.reverse_cons, branches_append, branches_cons n ns, ih, Nat.add_comm]

theorem branches_of_isSilent {known : Position → Prop} {n : Node} (h : n.Fits known)
    (hn : n.kind.isSilent = true) : branches [n] = 0 := by
  refine List.countP_eq_zero.mpr fun m hm hbranch => ?_
  have hmem : m ∈ n.preorder := by simpa [preorderAll] using hm
  have hno : ∀ k : Kind, k.isBranch = true → k.isSilent = false := by decide
  have hsilent := h.isSilent hn hmem
  rw [hno _ hbranch] at hsilent
  contradiction

theorem branches_of_comments {known : Position → Prop} {ns : List Node}
    (h : ∀ n ∈ ns, n.Fits known ∧ n.kind = .comment) : branches ns = 0 := by
  induction ns with
  | nil => rfl
  | cons n ns ih =>
      obtain ⟨⟨hn, hk⟩, hns⟩ := List.forall_mem_cons.mp h
      obtain ⟨hadmits, -, -⟩ := hn
      obtain rfl := hk
      simp only [Kind.admits, Bool.and_eq_true, List.isEmpty_iff, List.map_eq_nil_iff] at hadmits
      rw [branches_cons, ih hns, branches_singleton, hadmits.2]
      rfl

end Node

namespace Grammar

open Node (Kind branches)

/-! ## Readers -/

/-- No struct and no directive line is still to come. -/
def State.Bare (s : State) : Prop :=
  ∀ w ∈ s.script, w.1 ≠ .keyword .structKw ∧ w.1.isDirective = false

/-- How many keywords that open branches are still to come. -/
def State.branchWords (s : State) : Nat :=
  s.script.countP fun w => w.1.opensBranch

namespace State

variable {s t : State}

theorem Bare.leads (hs : s.Bare) (h : s.Leads t) : t.Bare := by
  obtain ⟨ws, hscript⟩ := h.script
  exact fun w hw => hs w (hscript ▸ List.mem_append_right _ hw)

theorem Bare.front (hs : s.Bare) :
    s.front.kind ≠ .keyword .structKw ∧ s.front.kind.isDirective = false := by
  rw [s.front_kind]
  cases hscript : s.script with
  | nil => simp [Token.Kind.isDirective]
  | cons w ws => exact hs w (by simp [hscript])

theorem branchWords_dropFront :
    s.branchWords = (if s.front.kind.opensBranch then 1 else 0) + s.dropFront.branchWords := by
  unfold branchWords
  cases hscript : s.script with
  | nil => simp [s.front_kind, hscript, s.script_dropFront_of_nil hscript, Token.Kind.opensBranch]
  | cons w ws =>
      rw [s.script_dropFront hscript, s.front_kind, hscript, List.countP_cons, Nat.add_comm]
      rfl

/-- Words that open no branch do not count. -/
theorem Spans.branchWords (h : s.Spans Quiet t) : s.branchWords = t.branchWords := by
  obtain ⟨ws, hscript, hquiet⟩ := h
  have hnone : ws.countP (fun w => w.1.opensBranch) = 0 :=
    List.countP_eq_zero.mpr fun w hw => by simp [hquiet w hw]
  rw [State.branchWords, hscript, List.countP_append, hnone, Nat.zero_add, State.branchWords]

end State

/-- From a token of such a kind, the keywords that the reader takes are those of the nodes that it
comes to, with so many of them known before. -/
def Tallies {α : Type} (P : Token.Kind → Prop) (before : Nat) (p : Parse α) (nodes : α → Nat) :
    Prop :=
  ∀ ⦃s t : State⦄ ⦃a : α⦄, s.Within Anywhere → s.Bare → P s.front.kind → p s = .ok a t →
    t.Within Anywhere ∧ t.Bare ∧ before + s.branchWords = nodes a + t.branchWords

namespace Tallies

variable {α β : Type} {P : Token.Kind → Prop} {before : Nat} {p : Parse α} {N : α → Nat}
  {M : β → Nat}

theorem pure {a : α} (h : N a = before) : Tallies P before (pure a) N := by
  intro s t b hs hbare _ hb
  obtain ⟨rfl, rfl⟩ := pure_eq_ok.mp hb
  exact ⟨hs, hbare, by rw [h]⟩

theorem weaken {Q : Token.Kind → Prop} (hp : Tallies Q before p N) (h : ∀ k, P k → Q k) :
    Tallies P before p N :=
  fun _ _ _ hs hbare hk ha => hp hs hbare (h _ hk) ha

/-- Something is known of the result of the first part. -/
theorem bindKnown {f : α → Parse β} {Q : α → Prop} (hp : Tallies P 0 p N)
    (hQ : ∀ ⦃s t a⦄, State.Within s Anywhere → s.Bare → p s = .ok a t → Q a)
    (hf : ∀ a, Q a → Tallies Always (before + N a) (f a) M) :
    Tallies P before (p >>= f) M := by
  intro s t b hs hbare hk hb
  obtain ⟨a, u, ha, hb⟩ := bind_eq_ok.mp hb
  obtain ⟨hu, hubare, hsum⟩ := hp hs hbare hk ha
  obtain ⟨ht, htbare, hsum'⟩ := hf a (hQ hs hbare ha) hu hubare trivial hb
  exact ⟨ht, htbare, by omega⟩

theorem bind {f : α → Parse β} (hp : Tallies P 0 p N)
    (hf : ∀ a, Tallies Always (before + N a) (f a) M) :
    Tallies P before (p >>= f) M :=
  bindKnown (Q := Always) hp (fun _ _ _ _ _ _ => trivial) fun a _ => hf a

/-- A look at the state leaves it where it is. -/
theorem bindLook {g : State → α} {f : α → Parse β}
    (hf : ∀ s : State, Tallies (fun k => P k ∧ k = s.front.kind) before (f (g s)) M) :
    Tallies P before ((fun s => .ok (g s) s) >>= f) M :=
  fun s _ _ hs hbare hk hb => hf s hs hbare ⟨hk, rfl⟩ hb

theorem bindHere {f : Position → Parse β} (hf : ∀ a, Tallies P before (f a) M) :
    Tallies P before (here >>= f) M :=
  bindLook fun _ => (hf _).weaken fun _ hk => hk.1

theorem bindKind {f : Token.Kind → Parse β}
    (hf : ∀ kind, Tallies (fun k => P k ∧ k = kind) before (f kind) M) :
    Tallies P before (frontKind >>= f) M :=
  bindLook fun s => hf s.front.kind

theorem bindTake {f : Token → Parse β} {b : Bool} (hk : ∀ k, P k → k.opensBranch = b)
    (hf : ∀ token, Tallies Always (before + if b then 1 else 0) (f token) M) :
    Tallies P before (takeFront >>= f) M := by
  intro s t b hs hbare hs' hb
  have hcount := s.branchWords_dropFront
  rw [hk _ hs'] at hcount
  obtain ⟨ht, htbare, hsum⟩ := hf s.front hs.dropFront (hbare.leads (.dropFront s)) trivial hb
  exact ⟨ht, htbare, by omega⟩

theorem stop {f : State → Failure} : Tallies P before (fun s => .error (f s) s) N := by
  intro s t a _ _ _ ha
  simp at ha

theorem ite {c : Prop} [Decidable c] {q : Parse α} (hp : c → Tallies P before p N)
    (hq : ¬c → Tallies P before q N) : Tallies P before (if c then p else q) N := by
  split
  · exact hp ‹c›
  · exact hq ‹¬c›

theorem oneDeeper (hp : Tallies P before p N) : Tallies P before (oneDeeper p) N := by
  intro s t a hs hbare hk ha
  obtain ⟨-, u, hu, rfl⟩ := oneDeeper_eq_ok.mp ha
  have hdeep : State.Within { s with depth := s.depth + 1 } Anywhere :=
    ⟨hs.rest, hs.stop, hs.comments⟩
  obtain ⟨hwithin, hsum⟩ := hp hdeep hbare hk hu
  exact ⟨⟨hwithin.rest, hwithin.stop, hwithin.comments⟩, hsum⟩

/-- Every round adds the keywords that it takes. -/
theorem loop {round : α → Parse (Turn α)} {value : α}
    (hround : ∀ a, Tallies Always (N a) (round a) fun
      | .again b => N b
      | .done b => N b)
    (h : N value = before) : Tallies P before (loop round value) N := by
  intro s t a hs hbare _ ha
  let sums : α → State → Prop := fun b u =>
    u.Within Anywhere ∧ u.Bare ∧ before + s.branchWords = N b + u.branchWords
  refine loop_ok (I := sums) (D := sums) ?_ ⟨hs, hbare, by rw [h]⟩ ha
  rintro b u turn v ⟨hu, hubare, hsum⟩ hv
  obtain ⟨hwithin, hvbare, hsum'⟩ := hround b hu hubare trivial hv
  cases turn with
  | again _ => exact ⟨hwithin, hvbare, hsum.trans hsum'⟩
  | done _ => exact ⟨hwithin, hvbare, hsum.trans hsum'⟩

theorem bindAccept {k : Token.Kind} {f : Bool → Parse β} (hk : k.opensBranch = false)
    (hf : ∀ b, Tallies Always before (f b) M) :
    Tallies P before (accept k >>= f) M := by
  refine bind (N := fun _ => 0) (bindKind fun kind => ite (fun hkind => ?_) fun _ => pure rfl) hf
  refine bindTake (b := false) ?_ fun _ => pure rfl
  rintro _ ⟨-, rfl⟩
  rw [hkind, hk]

theorem bindRequire {k : Token.Kind} {place : Place} {f : Token → Parse β}
    (hf : ∀ token, Tallies Always (before + if k.opensBranch then 1 else 0) (f token) M) :
    Tallies P before (require k place >>= f) M := by
  refine bind (N := fun _ => if k.opensBranch then 1 else 0)
    (bindKind fun kind => ite (fun hkind => ?_) fun _ => stop) hf
  intro s t a hs hbare hfront ha
  have hcount := s.branchWords_dropFront
  rw [hfront.2, hkind] at hcount
  obtain ⟨-, rfl⟩ := takeFront_eq_ok.mp ha
  exact ⟨hs.dropFront, hbare.leads (.dropFront s), by rw [hcount, Nat.zero_add]⟩

theorem bindMark {mark : Token.Delimiter} {place : Place} {f : Token → Parse β}
    (hf : ∀ token, Tallies Always before (f token) M) :
    Tallies P before (requireMark mark place >>= f) M :=
  bindRequire hf

theorem takeComments : Tallies P 0 takeComments branches := by
  intro s t a hs hbare _ ha
  obtain ⟨rfl, rfl⟩ := EStateM.Result.ok.inj ha
  have hscript : State.branchWords { s.passTrivia with comments := [] } = s.branchWords := by
    unfold State.branchWords State.script
    rw [s.words_eq_filter_upcoming]
    rfl
  have hcomments := Node.branches_of_comments hs.passTrivia.comments
  exact ⟨⟨hs.passTrivia.rest, hs.stop, by simp⟩, hbare.leads (.takeComments s),
    by rw [hscript, hcomments]⟩

/-- There are no directive lines to read. -/
theorem directive (h : ∀ k, P k → k.isDirective = true) : Tallies P before p N := by
  intro s t a _ hbare hk _
  have hnone := hbare.front.2
  rw [h _ hk] at hnone
  contradiction

end Tallies

/-- Rules that take a keyword for each branch. -/
structure Rules.Tallies (r : Rules) : Prop where
  yields : r.Yields Anywhere
  sound : r.Sound Braced
  initializer : Grammar.Tallies Always 0 r.initializer fun n => branches [n]
  statement : Grammar.Tallies Always 0 r.statement branches

namespace Tallies

variable {P : Token.Kind → Prop} {before : Nat} {r : Rules}

theorem branches_of_isOf {kinds : Kind → Bool} {n : Node} (h : IsOf Anywhere kinds n)
    (hk : ∀ k, kinds k = true → k.isSilent = true) : branches [n] = 0 :=
  Node.branches_of_isSilent h.1 (hk _ h.2)

/-! ## Readers that take no keyword -/

theorem structless {s t : State} {ws : List Word} (hbare : s.Bare)
    (hscript : s.script = ws ++ t.script) : Structless ws :=
  fun w hw => (hbare w (hscript ▸ List.mem_append_left _ hw)).1

/-- What takes words that open no branch, and lists no branch. -/
theorem ofSpans {α : Type} {p : Parse α} {N : α → Nat} (hc : Composed true true p)
    (hquiet : ∀ ⦃s t a⦄, State.Bare s → p s = .ok a t → s.Spans Quiet t)
    (hnodes : ∀ ⦃s t a⦄, State.Within s Anywhere → p s = .ok a t → N a = 0) :
    Tallies P 0 p N := by
  intro s t a hs hbare _ ha
  exact ⟨(hc.yields hs ha).1, hbare.leads (hc.leads ha),
    by rw [(hquiet hbare ha).branchWords, hnodes hs ha]⟩

theorem expression (h : r.Tallies) : Tallies P 0 r.expression fun n => branches [n] := by
  refine ofSpans h.sound.composed.expression.toTrue (fun s t n hbare hn => ?_)
    fun s t n hs hn => branches_of_isOf (h.yields.expression hs hn).2 Kind.isSilent_of_isTerm
  obtain ⟨ws, hscript, hws⟩ := h.sound.expression hn
  exact ⟨ws, hscript, hws.quiet (structless hbare hscript)⟩

theorem typeSpecifier (h : r.Tallies) : Tallies P 0 (typeSpecifier r) fun _ => 0 := by
  refine ofSpans (Composed.typeSpecifier h.sound.composed).toTrue (fun s t type hbare htype => ?_)
    fun _ _ _ _ _ => rfl
  obtain ⟨ws, hscript, hws⟩ := typeSpecifier_words h.sound.structSpecifier htype
  exact ⟨ws, hscript, hws.quiet (structless hbare hscript)⟩

/-- There is no struct to name a type. -/
theorem structNode_eq_none {s t : State} {type : TypeSpecifier} (hbare : s.Bare)
    (h : Grammar.typeSpecifier r s = .ok type t) : type.structNode = none := by
  obtain ⟨words, u, hwords, h⟩ := bind_eq_ok.mp h
  obtain ⟨kind, v, hkind, h⟩ := bind_eq_ok.mp h
  obtain ⟨rfl, rfl⟩ := frontKind_eq_ok.mp hkind
  split at h
  · obtain ⟨token, v, -, h⟩ := bind_eq_ok.mp h
    obtain ⟨rfl, -⟩ := pure_eq_ok.mp h
    rfl
  · split at h
    · rename_i hstruct
      exact absurd hstruct (hbare.leads (Composed.typeModifiers.leads hwords)).front.1
    · split at h
      · simp [failFound] at h
      · obtain ⟨rfl, -⟩ := pure_eq_ok.mp h
        rfl

theorem declarator (h : r.Tallies) : Tallies P 0 (declarator r) fun d => branches [d.node] := by
  refine ofSpans (Composed.declarator h.sound.composed).toTrue (fun s t d hbare hd => ?_)
    fun s t d hs hd =>
      branches_of_isOf (Yields.declarator h.yields hs hd).2 Kind.isSilent_of_isDeclarator
  obtain ⟨ws, hscript, hws⟩ := declarator_spans h.sound hd
  exact ⟨ws, hscript, hws.quiet (structless hbare hscript)⟩

theorem initializer (h : r.Tallies) : Tallies P 0 (initializer r) fun n => branches [n] := by
  refine bindKind fun kind => ite (fun hbrace => ?_) fun _ => expression h
  refine bindTake (b := false) (by rintro _ ⟨-, rfl⟩; rw [hbrace]; rfl) fun brace => ?_
  refine bind (N := branches) (loop (fun items => ?_) rfl) fun items => bindMark fun _ =>
    pure (by simp [Kind.isBranch])
  refine bindKind fun kind => ite (fun _ => pure rfl) fun _ =>
    bind (N := fun n => branches [n]) (oneDeeper (h.initializer.weaken fun _ _ => trivial))
      fun item => bindAccept rfl fun _ => ite (fun _ => pure ?_) fun _ => pure ?_
  · exact (Node.branches_cons item items).trans (Nat.add_comm _ _)
  · exact (Node.branches_cons item items).trans (Nat.add_comm _ _)

/-! ## Declarations and blocks -/

theorem block (h : r.Tallies) : Tallies P 0 (block r) fun n => branches [n] := by
  refine bindMark fun brace => bind (N := branches) (loop (fun found => ?_) rfl) fun found =>
    bindMark fun _ => pure (by simp [Kind.isBranch])
  have hround : ∀ (nodes known : List Node), branches (nodes.reverse ++ known) =
      branches known + branches nodes := by simp [Nat.add_comm]
  refine bind (N := branches) takeComments fun comments => ?_
  rw [← hround]
  refine bindKind fun kind => ?_
  split
  · exact pure rfl
  · exact stop
  · exact bind (h.statement.weaken fun _ _ => trivial) fun nodes => pure (hround nodes _)

/-- A name has the branches of its initial value only. -/
theorem declared (h : r.Tallies) {location : Position} {type : String} {d : Declarator}
    (hd : branches [d.node] = 0) :
    Tallies P 0 (declared r location type d none) fun n => branches [n] := by
  refine ite (fun _ => pure (by simp [hd, Kind.isBranch])) fun _ => bindAccept rfl fun _ =>
    ite (fun _ => ?_) fun _ => pure (by simp [hd, Kind.isBranch])
  exact bind (initializer h) fun value => pure (by simp [hd, Kind.isBranch])

theorem declaredNames (h : r.Tallies) {location : Position} {type : TypeSpecifier} :
    Tallies P 0 (declaredNames r location type none) fun names => branches names.nodes := by
  refine loop (fun names => ?_) rfl
  rw [ite_self]
  have hround : ∀ (n : Node) (ns : List Node), branches (n :: ns) = branches ns + branches [n] :=
    fun n ns => (Node.branches_cons n ns).trans (Nat.add_comm _ _)
  have hsilent : ∀ ⦃s t : State⦄ ⦃d : Declarator⦄, s.Within Anywhere → s.Bare →
      Grammar.declarator r s = .ok d t → branches [d.node] = 0 := fun s t d hs _ hd =>
    branches_of_isOf (Yields.declarator h.yields hs hd).2 Kind.isSilent_of_isDeclarator
  refine bindKnown (declarator h) hsilent fun d hd => bindKind fun kind =>
    ite (fun _ => ?_) fun _ => ?_
  · refine bind (N := fun n => branches [n]) (block h) fun code => pure ?_
    show branches (_ :: names.nodes) = _
    rw [hround]
    simp [hd, Kind.isBranch]
  · refine bind (N := fun n => branches [n]) (declared h hd) fun node => bindAccept rfl
      fun _ => ite (fun _ => pure ?_) fun _ => pure ?_
    · exact (hround _ _).trans (by rw [hd, Nat.add_zero])
    · exact (hround _ _).trans (by rw [hd, Nat.add_zero])

theorem declaration (h : r.Tallies) : Tallies P 0 (declaration r) branches := by
  refine bindHere fun location => bindKnown (Q := fun type => type.structNode = none)
    (typeSpecifier h) (fun _ _ _ _ hbare htype => structNode_eq_none hbare htype)
    fun type hnone => bindAccept rfl fun _ => ite (fun _ => pure ?_) fun _ => ?_
  · rw [hnone]
    rfl
  · rw [hnone, Option.filter_none]
    refine bind (declaredNames h) fun names => ite (fun _ => pure ?_) fun _ => bindMark fun _ =>
      pure ?_
    · simp
    · simp

/-! ## Statements -/

theorem branches_asSingle (location : Position) (nodes : List Node) :
    branches [asSingle location nodes] = branches nodes := by
  match nodes with
  | [] => rfl
  | [n] => rfl
  | n :: m :: nodes => simp [asSingle, Kind.isBranch]

theorem singleStatement (h : r.Tallies) :
    Tallies P 0 (singleStatement r) fun n => branches [n] :=
  bindHere fun _ => bind (h.statement.weaken fun _ _ => trivial) fun _ =>
    pure ((branches_asSingle _ _).trans (Nat.zero_add _).symm)

theorem condition (h : r.Tallies) (word : String) (place : Place) :
    Tallies P 0 (condition r word place) fun n => branches [n] :=
  bindMark fun _ => bind (N := fun n => branches [n]) (expression h) fun _ =>
    bindMark fun _ => pure (Nat.zero_add _).symm

theorem ifStatement (h : r.Tallies) (hP : ∀ k, P k → k.opensBranch = true) :
    Tallies P 0 (ifStatement r) fun n => branches [n] := by
  refine bindTake hP fun keyword => bind (N := fun n => branches [n]) (condition h _ _)
    fun test => bind (N := fun n => branches [n]) (singleStatement h) fun yes =>
    bindAccept rfl fun _ => ite (fun _ => ?_) fun _ => pure ?_
  · refine bind (N := fun n => branches [n]) (singleStatement h) fun no => pure ?_
    simp [Kind.isBranch, Nat.add_assoc]
  · simp [Kind.isBranch, Nat.add_assoc]

theorem forStart (h : r.Tallies) : Tallies P 0 (forStart r) fun n => branches [n] := by
  refine bindHere fun location => bindAccept rfl fun _ => ite (fun _ => pure rfl) fun _ =>
    bindKind fun kind => ite (fun _ => bind (declaration h) fun nodes => ?_) fun _ => ?_
  · split
    · exact pure (Nat.zero_add _).symm
    · exact pure (by simp [Kind.isBranch])
  · exact bind (N := fun n => branches [n]) (expression h) fun _ => bindMark fun _ =>
      pure (Nat.zero_add _).symm

theorem optionalBefore (h : r.Tallies) (mark : Token.Delimiter) :
    Tallies P 0 (optionalBefore r mark) fun n => branches [n] :=
  bindKind fun _ => ite (fun _ => bindHere fun _ => pure rfl) fun _ => expression h

theorem forStatement (h : r.Tallies) (hP : ∀ k, P k → k.opensBranch = true) :
    Tallies P 0 (forStatement r) fun n => branches [n] := by
  refine bindTake hP fun keyword => bindMark fun _ =>
    bind (N := fun n => branches [n]) (forStart h) fun start =>
    bind (N := fun n => branches [n]) (optionalBefore h _) fun test => bindMark fun _ =>
    bind (N := fun n => branches [n]) (optionalBefore h _) fun step => bindMark fun _ =>
    bind (N := fun n => branches [n]) (singleStatement h) fun body => pure ?_
  simp [Kind.isBranch, Nat.add_assoc]

theorem whileStatement (h : r.Tallies) (hP : ∀ k, P k → k.opensBranch = true) :
    Tallies P 0 (whileStatement r) fun n => branches [n] := by
  refine bindTake hP fun keyword => bind (N := fun n => branches [n]) (condition h _ _)
    fun test => bind (N := fun n => branches [n]) (singleStatement h) fun body => pure ?_
  simp [Kind.isBranch, Nat.add_assoc]

/-- The keyword of this loop is the one behind its body. -/
theorem doWhileStatement (h : r.Tallies) (hP : ∀ k, P k → k.opensBranch = false) :
    Tallies P 0 (doWhileStatement r) fun n => branches [n] := by
  refine bindTake hP fun keyword => bind (N := fun n => branches [n]) (singleStatement h)
    fun body => bindRequire fun _ => bind (N := fun n => branches [n]) (condition h _ _)
    fun test => bindMark fun _ => pure ?_
  simp [Kind.isBranch, Token.Kind.opensBranch]
  omega

theorem switchStatement (h : r.Tallies) (hP : ∀ k, P k → k.opensBranch = false) :
    Tallies P 0 (switchStatement r) fun n => branches [n] := by
  refine bindTake hP fun keyword => bind (N := fun n => branches [n]) (condition h _ _)
    fun value => bind (N := fun n => branches [n]) (singleStatement h) fun body => pure ?_
  simp [Kind.isBranch]

theorem caseLabel (h : r.Tallies) (hP : ∀ k, P k → k.opensBranch = false) :
    Tallies P 0 (caseLabel r) fun n => branches [n] :=
  bindTake hP fun _ => bind (N := fun n => branches [n]) (expression h) fun _ =>
    bindMark fun _ => pure (by simp [Kind.isBranch])

theorem defaultLabel (hP : ∀ k, P k → k.opensBranch = false) :
    Tallies P 0 defaultLabel fun n => branches [n] :=
  bindTake hP fun _ => bindMark fun _ => pure rfl

theorem label (hP : ∀ k, P k → k.opensBranch = false) :
    Tallies P 0 label fun n => branches [n] :=
  bindTake hP fun _ => bindMark fun _ => pure rfl

theorem returnStatement (h : r.Tallies) (hP : ∀ k, P k → k.opensBranch = false) :
    Tallies P 0 (returnStatement r) fun n => branches [n] :=
  bindTake hP fun _ => bindKind fun _ => ite (fun _ => bindMark fun _ => pure rfl) fun _ =>
    bind (N := fun n => branches [n]) (expression h) fun _ => bindMark fun _ =>
      pure (by simp [Kind.isBranch])

theorem jump (hP : ∀ k, P k → k.opensBranch = false) {kind : Kind} (word : String)
    (hkind : kind.isBranch = false) : Tallies P 0 (jump kind word) fun n => branches [n] :=
  bindTake hP fun _ => bindMark fun _ => pure (by simp [hkind])

theorem gotoStatement (hP : ∀ k, P k → k.opensBranch = false) :
    Tallies P 0 gotoStatement fun n => branches [n] :=
  bindTake hP fun _ => bindRequire fun _ => bindMark fun _ => pure rfl

theorem expressionStatement (h : r.Tallies) :
    Tallies P 0 (expressionStatement r) fun n => branches [n] :=
  bindHere fun _ => bind (N := fun n => branches [n]) (expression h) fun _ =>
    bindMark fun _ => pure (by simp [Kind.isBranch])

theorem one {p : Parse Node} (hp : Tallies P 0 p fun n => branches [n]) :
    Tallies P 0 (one p) branches :=
  bind hp fun _ => pure (Nat.zero_add _).symm

theorem bindLabelAhead {α : Type} {f : Bool → Parse α} {nodes : α → Nat}
    (hf : ∀ b, Tallies P before (f b) nodes) : Tallies P before (labelAhead >>= f) nodes := by
  have hlook : labelAhead = fun s => .ok
      (s.front.kind = .identifier && s.second.kind = .delimiter .colon) s := rfl
  rw [hlook]
  exact bindLook fun _ => (hf _).weaken fun _ hk => hk.1

theorem openStatement (h : r.Tallies) (kind : Token.Kind)
    (hP : ∀ k, P k → k.opensBranch = false) : Tallies P 0 (openStatement r kind) branches :=
  bindLabelAhead fun _ => ite (fun _ => one (label hP)) fun _ =>
    ite (fun _ => declaration h) fun _ => ite (fun _ => one (expressionStatement h)) fun _ =>
    ite (fun _ => stop) fun _ => bindTake hP fun _ => pure rfl

theorem statementOf (h : r.Tallies) (kind : Token.Kind) :
    Tallies (· = kind) 0 (statementOf r kind) branches := by
  have hopens : ∀ {k : Token.Kind} {b : Bool}, k.opensBranch = b →
      ∀ k', k' = k → k'.opensBranch = b := by
    rintro k b hk _ rfl
    exact hk
  have hline : ∀ {marker : Token.Directive} (k : Token.Kind), k = .directive marker →
      k.isDirective = true := by
    rintro marker _ rfl
    rfl
  unfold Grammar.statementOf
  split
  · exact one (ifStatement h (hopens rfl))
  · exact one (forStatement h (hopens rfl))
  · exact one (whileStatement h (hopens rfl))
  · exact one (doWhileStatement h (hopens rfl))
  · exact one (switchStatement h (hopens rfl))
  · exact one (caseLabel h (hopens rfl))
  · exact one (defaultLabel (hopens rfl))
  · exact one (returnStatement h (hopens rfl))
  · exact one (jump (hopens rfl) _ rfl)
  · exact one (jump (hopens rfl) _ rfl)
  · exact one (gotoStatement (hopens rfl))
  · exact one (block h)
  · exact directive hline
  · exact directive hline
  · exact directive hline
  · rename_i hif hfor hwhile _ _ _ _ _ _ _ _ _ _ _ _
    refine openStatement h kind (hopens ?_)
    unfold Token.Kind.opensBranch
    split
    · exact absurd rfl hif
    · exact absurd rfl hfor
    · exact absurd rfl hwhile
    · rfl

theorem statement (h : r.Tallies) : Tallies P 0 (statement r) branches :=
  oneDeeper (bindKind fun kind => (statementOf h kind).weaken fun _ hk => hk.2)

end Tallies

/-- The rules take a keyword for each branch, at any number of levels. -/
theorem Rules.level_tallies (levels : Nat) : (Rules.level levels).Tallies := by
  induction levels with
  | zero => exact ⟨Rules.level_yields 0, Rules.level_sound 0, .stop, .stop⟩
  | succ levels ih =>
      exact ⟨Rules.level_yields (levels + 1), Rules.level_sound (levels + 1),
        Grammar.Tallies.initializer ih, Grammar.Tallies.statement ih⟩

end Grammar

end CSurvey
