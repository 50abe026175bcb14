import Mathlib.Algebra.GroupWithZero.Nat
import CSurvey.Proofs.Grammar.Joining
import CSurvey.Proofs.Grammar.Progress

/-! # Nodes and the tokens that pay for them

The nodes that a reader makes are paid for with the tokens that it takes. A reader may hold some
tokens that were taken before it, and a part may take some on credit that a later one pays back. -/

namespace CSurvey

namespace Node

/-! ## Counts -/

@[simp] theorem countAll_nil : countAll [] = 0 := rfl

@[simp] theorem countAll_cons (n : Node) (ns : List Node) :
    countAll (n :: ns) = n.count + countAll ns := rfl

@[simp] theorem countAll_append (ns ms : List Node) :
    countAll (ns ++ ms) = countAll ns + countAll ms := by
  induction ns with
  | nil => simp
  | cons n ns ih => simp [ih, Nat.add_assoc]

@[simp] theorem countAll_reverse (ns : List Node) : countAll ns.reverse = countAll ns := by
  induction ns with
  | nil => rfl
  | cons n ns ih => simp [ih, Nat.add_comm]

@[simp] theorem count_texted (kind : Kind) (text : String) (location : Position)
    (children : List Node) : (texted kind text location children).count = 1 + countAll children :=
  rfl

@[simp] theorem count_plain (kind : Kind) (location : Position) (children : List Node) :
    (plain kind location children).count = 1 + countAll children := rfl

@[simp] theorem count_absent (location : Position) : (absent location).count = 1 := rfl

theorem count_pos (n : Node) : 0 < n.count := by
  cases n with
  | mk _ _ _ _ => exact Nat.lt_of_lt_of_le Nat.one_pos (Nat.le_add_right 1 _)

theorem countAll_eq_sum (ns : List Node) : countAll ns = (ns.map count).sum := by
  induction ns with
  | nil => rfl
  | cons n ns ih => rw [countAll_cons, ih, List.map_cons, List.sum_cons]

theorem countAll_comments (tokens : List Token) :
    countAll (tokens.map Grammar.asComment) = tokens.length := by
  induction tokens with
  | nil => rfl
  | cons t tokens ih =>
      rw [List.map_cons, countAll_cons, ih, List.length_cons, Nat.add_comm]
      rfl

end Node

namespace Grammar

open Node (countAll)

/-! ## What pays for nodes -/

/-- What there is to pay for nodes with: the tokens not yet read, and the comments set aside. -/
def State.funds (s : State) : Nat :=
  s.rest.length + countAll s.comments

theorem State.funds_passTrivia (s : State) : s.passTrivia.funds ≤ s.funds := by
  have hsplit : s.rest.takeWhile s.isPassed ++ s.upcoming = s.rest :=
    List.takeWhile_append_dropWhile
  have hlength := congrArg List.length hsplit
  have hcomments := List.length_filter_le (fun t : Token => t.kind.isComment)
    (s.rest.takeWhile s.isPassed)
  rw [List.length_append] at hlength
  show s.upcoming.length + countAll (s.comments ++ _) ≤ _
  rw [Node.countAll_append, Node.countAll_comments, State.funds]
  omega

theorem State.funds_dropFront (s : State) : s.dropFront.funds ≤ s.funds := by
  have hpass := s.funds_passTrivia
  have hdrop : (s.upcoming.drop 1).length ≤ s.upcoming.length := by simp
  refine Nat.le_trans ?_ hpass
  exact Nat.add_le_add_right hdrop _

/-- A token that is taken pays for a node. -/
theorem State.Open.funds_dropFront {s : State} (h : s.Open) : s.dropFront.funds + 1 ≤ s.funds := by
  have hpass := s.funds_passTrivia
  have hpos := List.length_pos_iff.mpr h
  have hdrop : (s.upcoming.drop 1).length + 1 = s.upcoming.length := by
    rw [List.length_drop]
    omega
  refine Nat.le_trans (Nat.le_of_eq ?_) hpass
  show (s.upcoming.drop 1).length + _ + 1 = s.upcoming.length + _
  rw [← hdrop]
  exact Nat.add_right_comm ..

/-- From such a state, the tokens in hand and those that the reader takes pay for its result. -/
def Pays {α : Type} (P : State → Prop) (held : Nat) (p : Parse α) (cost : α → Nat) : Prop :=
  ∀ ⦃s t : State⦄ ⦃a : α⦄, P s → p s = .ok a t → cost a + t.funds ≤ held + s.funds

/-- The cost of a round, by what it comes to. -/
def Turn.cost {α : Type} (N M : α → Nat) : Turn α → Nat
  | .again a => N a
  | .done a => M a

namespace Pays

variable {α β : Type} {P R : State → Prop} {held : Nat} {p : Parse α} {N : α → Nat} {M : β → Nat}

/-! ## Composed readers -/

theorem mono (hp : Pays R held p N) (h : ∀ s, P s → R s) : Pays P held p N :=
  fun _ _ _ hs ha => hp (h _ hs) ha

/-- What costs less needs less in hand. -/
theorem relax {L : α → Nat} {k : Nat} (hp : Pays P k p L) (h : ∀ a, N a + k ≤ L a + held) :
    Pays P held p N := by
  intro s t a hs ha
  have hle := hp hs ha
  have hcost := h a
  omega

theorem pure {a : α} (h : N a ≤ held) : Pays P held (pure a) N := by
  intro s t b _ hb
  obtain ⟨rfl, rfl⟩ := pure_eq_ok.mp hb
  exact Nat.add_le_add_right h _

/-- The first part takes something on credit. -/
theorem bindOwing {f : α → Parse β} {k : Nat} (hp : Pays P k p N) (hk : k ≤ held)
    (hf : ∀ a, Pays Always (held - k + N a) (f a) M) : Pays P held (p >>= f) M := by
  intro s t b hs hb
  obtain ⟨a, u, ha, hb⟩ := bind_eq_ok.mp hb
  have hle := hp hs ha
  have hle' := hf a trivial hb
  omega

theorem bind {f : α → Parse β} (hp : Pays P 0 p N)
    (hf : ∀ a, Pays Always (held + N a) (f a) M) : Pays P held (p >>= f) M :=
  bindOwing hp (Nat.zero_le _) hf

/-- A look at the state leaves it where it is. -/
theorem bindLook {g : State → α} {f : α → Parse β}
    (hf : ∀ a, Pays (fun s => P s ∧ g s = a) held (f a) M) :
    Pays P held ((fun s => .ok (g s) s) >>= f) M := by
  intro s t b hs hb
  exact hf _ ⟨hs, rfl⟩ hb

theorem bindSkip {f : Token → Parse β} (hf : ∀ token, Pays Always held (f token) M) :
    Pays P held (takeFront >>= f) M := by
  intro s t b _ hb
  have hle := hf s.front trivial hb
  have hdrop := s.funds_dropFront
  omega

/-- A token that is taken is in hand. -/
theorem bindTake {f : Token → Parse β} (hk : ∀ s, P s → s.front.kind ≠ .endOfInput)
    (hf : ∀ token, Pays Always (held + 1) (f token) M) : Pays P held (takeFront >>= f) M := by
  intro s t b hs hb
  have hle := hf s.front trivial hb
  have hdrop := (State.open_of_front (hk s hs)).funds_dropFront
  omega

theorem bindKind {f : Token.Kind → Parse β}
    (hf : ∀ kind, Pays (fun s => P s ∧ s.front.kind = kind) held (f kind) M) :
    Pays P held (frontKind >>= f) M :=
  bindLook hf

/-- A token is taken of which the kind is known. -/
theorem bindKnown {kind : Token.Kind} {f : Token → Parse β} (hk : kind ≠ .endOfInput)
    (hf : ∀ token, Pays Always (held + 1) (f token) M) :
    Pays (fun s => P s ∧ s.front.kind = kind) held (takeFront >>= f) M :=
  bindTake (fun _ hs => hs.2 ▸ hk) hf

theorem stop {f : State → Failure} : Pays P held (fun s => .error (f s) s) N := by
  intro s t a _ ha
  simp at ha

theorem ite {c : Prop} [Decidable c] {q : Parse α} (hp : c → Pays P held p N)
    (hq : ¬c → Pays P held q N) : Pays P held (if c then p else q) N := by
  split
  · exact hp ‹c›
  · exact hq ‹¬c›

theorem oneDeeper (hp : Pays R held p N)
    (h : ∀ s : State, P s → R { s with depth := s.depth + 1 }) : Pays P held (oneDeeper p) N := by
  intro s t a hs ha
  obtain ⟨-, u, hu, rfl⟩ := oneDeeper_eq_ok.mp ha
  have hle := hp (h s hs) hu
  exact hle

theorem bindDeeper {f : Unit → Parse β} (hP : ∀ s : State, P s → R { s with depth := s.depth + 1 })
    (hf : ∀ u, Pays R held (f u) M) : Pays P held (goDeeper >>= f) M := by
  intro s t b hs hb
  obtain ⟨a, u, ha, hb⟩ := bind_eq_ok.mp hb
  unfold goDeeper at ha
  split at ha
  · obtain ⟨-, rfl⟩ := EStateM.Result.ok.inj ha
    have hle := hf a (hP s hs) hb
    exact hle
  · simp at ha

theorem onDirectiveLine (hp : Pays R held p N)
    (h : ∀ s : State, P s → R { s with onLine := true }) :
    Pays P held (onDirectiveLine p) N := by
  intro s t a hs ha
  obtain ⟨u, hu, rfl⟩ := onDirectiveLine_eq_ok.mp ha
  have hle := hp (h s hs) hu
  exact hle

/-- Each round pays for what it adds. -/
theorem loop {L : α → Nat} {round : α → Parse (Turn α)} {value : α}
    (hround : ∀ a, Pays Always (N a) (round a) (Turn.cost N L)) (h : N value ≤ held) :
    Pays P held (loop round value) L := by
  intro s t a _ ha
  refine loop_ok (I := fun b u => N b + u.funds ≤ held + s.funds)
    (D := fun b u => L b + u.funds ≤ held + s.funds) ?_ (Nat.add_le_add_right h _) ha
  intro b u turn v hu hv
  have hle := hround b trivial hv
  cases turn with
  | again _ => exact Nat.le_trans hle hu
  | done _ => exact Nat.le_trans hle hu

theorem bindAccept {k : Token.Kind} {f : Bool → Parse β} (hk : k ≠ .endOfInput)
    (hyes : Pays Always (held + 1) (f true) M) (hno : Pays Always held (f false) M) :
    Pays P held (accept k >>= f) M := by
  have haccept : Pays P 0 (accept k) fun b => if b then 1 else 0 :=
    bindKind fun kind => ite (fun hkind => bindKnown (hkind ▸ hk) fun _ => pure (Nat.le_refl _))
      fun _ => pure (Nat.le_refl _)
  refine bind haccept fun b => ?_
  cases b with
  | true => exact hyes
  | false => exact hno

theorem bindRequire {k : Token.Kind} {place : Place} {f : Token → Parse β} (hk : k ≠ .endOfInput)
    (hf : ∀ token, Pays Always (held + 1) (f token) M) :
    Pays P held (require k place >>= f) M := by
  have hrequire : Pays P 0 (require k place) fun _ => 1 := by
    refine bindKind fun kind => ite (fun hkind => ?_) fun _ => stop
    exact bindKnown (f := Pure.pure) (hkind ▸ hk) fun _ => pure (Nat.le_refl _)
  exact bind hrequire hf

theorem bindMark {mark : Token.Delimiter} {place : Place} {f : Token → Parse β}
    (hf : ∀ token, Pays Always (held + 1) (f token) M) :
    Pays P held (requireMark mark place >>= f) M :=
  bindRequire (by simp) hf

/-- Behind the comments stands a token that counts. -/
theorem bindComments {f : List Node → Parse β}
    (hf : ∀ comments, Pays State.Settled (held + countAll comments) (f comments) M) :
    Pays P held (Grammar.takeComments >>= f) M := by
  intro s t b _ hb
  obtain ⟨comments, u, hu, hb⟩ := bind_eq_ok.mp hb
  obtain ⟨rfl, rfl⟩ := EStateM.Result.ok.inj hu
  have hsettled : State.Settled { s.passTrivia with comments := [] } := s.settled_passTrivia
  have hpass := s.funds_passTrivia
  have hle := hf s.passTrivia.comments hsettled hb
  simp only [State.funds, Node.countAll_nil] at hpass hle ⊢
  omega

/-- Results separated by commas. Each may be given one token more than it costs: the comma behind
it, or for the last one a token in hand. -/
theorem commaSeparated {extra : Nat} (hextra : extra ≤ 1) (hp : Pays Always 0 p N) :
    Pays P extra (commaSeparated p) fun found => (found.map fun a => N a + extra).sum := by
  let total : List α → Nat := fun found => (found.map fun a => N a + extra).sum
  have hcons : ∀ a found, total (a :: found) = N a + extra + total found := fun _ _ => rfl
  have hloop : Pays P extra (Grammar.loop (fun found => do
      let next ← p
      if ← accept (.delimiter .comma) then Pure.pure (.again (next :: found))
      else Pure.pure (.done (next :: found))) []) total := by
    refine loop (N := fun found => extra + total found) (fun found => ?_) (Nat.le_refl _)
    refine bind hp fun next => bindAccept (by simp) (pure ?_) (pure ?_)
    · show extra + total (next :: found) ≤ _
      rw [hcons]
      omega
    · show total (next :: found) ≤ _
      rw [hcons]
      omega
  intro s t a hs ha
  obtain ⟨found, u, hu, ha⟩ := bind_eq_ok.mp ha
  obtain ⟨rfl, rfl⟩ := pure_eq_ok.mp ha
  have hle := hloop hs hu
  have hreverse : total found.reverse = total found := by
    simp only [total, List.map_reverse, List.sum_reverse]
  show total found.reverse + _ ≤ _
  rwa [hreverse]

/-- What a kind passes and the end of input does not. -/
theorem ne_endOfInput {test : Token.Kind → Bool} {kind : Token.Kind} (hk : test kind = true)
    (hend : test .endOfInput = false) : kind ≠ .endOfInput := by
  rintro rfl
  rw [hend] at hk
  contradiction

end Pays

end Grammar

end CSurvey
