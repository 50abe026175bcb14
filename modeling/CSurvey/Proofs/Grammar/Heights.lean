import Mathlib.Tactic.Ring
import CSurvey.Proofs.Grammar.Errors
import CSurvey.Proofs.Syntax.Height

/-! # How tall the trees of a file can be

The limit is on nesting, and a tree is taller than that: a level that an operator of a chain takes
is given back where the construct around the chain ends, and what stood in parentheses can then be
wrapped by a chain again. With `levels` levels left an expression wraps at most `levels` operands
around the tallest one of the level below, and so heights grow with the square of the levels. -/

namespace CSurvey.Grammar

/-! ## Heights and levels -/

/-- How tall an expression can be when so many levels are left. -/
def tallest (levels : Nat) : Nat :=
  (levels + 2) ^ 2

theorem tallest_succ (levels : Nat) :
    tallest (levels + 1) = tallest levels + 2 * levels + 5 := by
  unfold tallest
  ring

theorem tallest_mono {few many : Nat} (h : few ≤ many) : tallest few ≤ tallest many :=
  Nat.pow_le_pow_left (Nat.add_le_add_right h 2) 2

theorem four_le_tallest (levels : Nat) : 4 ≤ tallest levels :=
  tallest_mono (Nat.zero_le levels)

/-- At most so many levels of nesting are left. -/
structure State.Spare (levels : Nat) (s : State) : Prop where
  within : s.Within Anywhere
  limit : s.limit ≤ s.depth + levels

theorem State.Spare.mono {few many : Nat} {s : State} (h : s.Spare few) (hle : few ≤ many) :
    s.Spare many :=
  ⟨h.within, Nat.le_trans h.limit (Nat.add_le_add_left hle _)⟩

/-- With at most so many levels left, the result of the reader is as `Q` says. -/
def Builds (levels : Nat) {α : Type} (p : Parse α) (Q : α → Prop) : Prop :=
  ∀ ⦃s t : State⦄ ⦃a : α⦄, s.Spare levels → p s = .ok a t →
    t.limit = s.limit ∧ t.Spare levels ∧ Q a

/-- With at most so many levels left, the result of the reader and the levels that it leaves are as
`Q` says. -/
def Leaves (levels : Nat) {α : Type} (p : Parse α) (Q : α → Nat → Prop) : Prop :=
  ∀ ⦃s t : State⦄ ⦃a : α⦄, s.Spare levels → p s = .ok a t →
    t.limit = s.limit ∧ ∃ left ≤ levels, t.Spare left ∧ Q a left

variable {levels : Nat} {α β : Type}

/-- Every reader keeps to the levels left. -/
theorem Composed.builds {p : Parse α} (hp : Composed true true p) :
    Builds levels p fun _ => True := by
  intro s t a hs ha
  have hleads := hp.leads ha
  refine ⟨hleads.limit, ⟨(hp.yields hs.within ha).1, ?_⟩, trivial⟩
  rw [hleads.limit]
  exact Nat.le_trans hs.limit (Nat.add_le_add_right hleads.depth _)

namespace Builds

variable {p : Parse α} {P Q : α → Prop}

theorem pure {a : α} (h : Q a) : Builds levels (pure a) Q := by
  intro s t b hs hb
  obtain ⟨rfl, rfl⟩ := pure_eq_ok.mp hb
  exact ⟨rfl, hs, h⟩

theorem bind {f : α → Parse β} {Q : β → Prop} (hp : Builds levels p P)
    (hf : ∀ a, P a → Builds levels (f a) Q) : Builds levels (p >>= f) Q := by
  intro s t b hs hb
  obtain ⟨a, u, ha, hb⟩ := bind_eq_ok.mp hb
  obtain ⟨hlimit, hu, hPa⟩ := hp hs ha
  obtain ⟨hlimit', ht, hQb⟩ := hf a hPa hu hb
  exact ⟨hlimit'.trans hlimit, ht, hQb⟩

/-- A step whose result does not matter. -/
theorem step {f : α → Parse β} {Q : β → Prop} (hp : Composed true true p)
    (hf : ∀ a, Builds levels (f a) Q) : Builds levels (p >>= f) Q :=
  .bind hp.builds fun a _ => hf a

theorem mono (hp : Builds levels p P) (h : ∀ a, P a → Q a) : Builds levels p Q := by
  intro s t a hs ha
  obtain ⟨hlimit, ht, hPa⟩ := hp hs ha
  exact ⟨hlimit, ht, h a hPa⟩

theorem ite {c : Prop} [Decidable c] {p q : Parse α} (hp : Builds levels p Q)
    (hq : Builds levels q Q) : Builds levels (if c then p else q) Q := by
  split
  · exact hp
  · exact hq

theorem stop {f : State → Failure} : Builds levels (fun s => .error (f s) s) Q := by
  intro s t a hs ha
  simp at ha

/-- One level deeper one level less is left. -/
theorem oneDeeper (hp : ∀ fewer, levels = fewer + 1 → Builds fewer p Q) :
    Builds levels (oneDeeper p) Q := by
  intro s t a hs ha
  obtain ⟨hdepth, u, hu, rfl⟩ := oneDeeper_eq_ok.mp ha
  have hlimit := hs.limit
  obtain ⟨fewer, rfl⟩ : ∃ fewer, levels = fewer + 1 := ⟨levels - 1, by omega⟩
  have hdeep : State.Spare fewer { s with depth := s.depth + 1 } :=
    ⟨⟨hs.within.rest, hs.within.stop, hs.within.comments⟩, by dsimp only; omega⟩
  obtain ⟨hsame, hspare, hQ⟩ := hp fewer rfl hdeep hu
  refine ⟨hsame, ⟨⟨hspare.within.rest, hspare.within.stop, hspare.within.comments⟩, ?_⟩, hQ⟩
  exact hsame ▸ hlimit

theorem onDirectiveLine (hp : Builds levels p Q) : Builds levels (onDirectiveLine p) Q := by
  intro s t a hs ha
  obtain ⟨u, hu, rfl⟩ := onDirectiveLine_eq_ok.mp ha
  have hline : State.Spare levels { s with onLine := true } :=
    ⟨⟨hs.within.rest, hs.within.stop, hs.within.comments⟩, hs.limit⟩
  obtain ⟨hsame, hspare, hQ⟩ := hp hline hu
  exact ⟨hsame, ⟨⟨hspare.within.rest, hspare.within.stop, hspare.within.comments⟩,
    hspare.limit⟩, hQ⟩

theorem loop {round : α → Parse (Turn α)} {I D : α → Prop} {value : α}
    (hround : ∀ a, I a → Builds levels (round a) fun
      | .again b => I b
      | .done b => D b)
    (h : I value) : Builds levels (loop round value) D := by
  intro s t a hs ha
  refine loop_ok (I := fun b u => u.limit = s.limit ∧ u.Spare levels ∧ I b)
    (D := fun b u => u.limit = s.limit ∧ u.Spare levels ∧ D b) ?_ ⟨rfl, hs, h⟩ ha
  rintro b u turn v ⟨hlimit, hu, hb⟩ hv
  obtain ⟨hlimit', hspare, hturn⟩ := hround b hb hu hv
  cases turn with
  | again _ => exact ⟨hlimit'.trans hlimit, hspare, hturn⟩
  | done _ => exact ⟨hlimit'.trans hlimit, hspare, hturn⟩

theorem commaSeparated (hp : Builds levels p Q) :
    Builds levels (commaSeparated p) fun found => ∀ a ∈ found, Q a := by
  refine .bind (P := fun found => ∀ a ∈ found, Q a)
    (.loop (I := fun found => ∀ a ∈ found, Q a) ?_ (by simp))
    fun found h => .pure (by simpa using h)
  intro found h
  refine .bind hp fun next hnext => .step (.accept _) fun _ => .ite ?_ ?_
  · exact .pure (by simpa [hnext] using h)
  · exact .pure (by simpa [hnext] using h)

/-- Comments stand alone. -/
theorem takeComments : Builds levels takeComments fun comments => ∀ n ∈ comments, n.height = 1 := by
  intro s t a hs ha
  obtain ⟨hlimit, ht, -⟩ := (Composed.takeComments rfl).builds hs ha
  obtain ⟨rfl, -⟩ := EStateM.Result.ok.inj ha
  refine ⟨hlimit, ht, fun n hn => ?_⟩
  obtain ⟨hfits, hkind⟩ := hs.within.passTrivia.comments n hn
  cases hfits with
  | @intro kind value children location hadmits _ _ =>
      obtain rfl : kind = .comment := hkind
      have hnone : children = [] := by
        simpa [Node.Kind.admits] using (Bool.and_eq_true_iff.mp hadmits).2
      rw [hnone]
      rfl

end Builds

namespace Leaves

variable {p : Parse α} {P Q : α → Nat → Prop}

/-- A reader that gives back the levels it takes. -/
theorem of_builds {R : α → Prop} (hp : Builds levels p R) (h : ∀ a, R a → Q a levels) :
    Leaves levels p Q := by
  intro s t a hs ha
  obtain ⟨hlimit, ht, hR⟩ := hp hs ha
  exact ⟨hlimit, levels, Nat.le_refl _, ht, h a hR⟩

theorem builds {R : α → Prop} (hp : Leaves levels p Q) (h : ∀ a left, Q a left → R a) :
    Builds levels p R := by
  intro s t a hs ha
  obtain ⟨hlimit, left, hle, ht, hQ⟩ := hp hs ha
  exact ⟨hlimit, ht.mono hle, h a left hQ⟩

theorem pure {a : α} (h : Q a levels) : Leaves levels (pure a) Q := by
  intro s t b hs hb
  obtain ⟨rfl, rfl⟩ := pure_eq_ok.mp hb
  exact ⟨rfl, levels, Nat.le_refl _, hs, h⟩

theorem bind {f : α → Parse β} {Q : β → Nat → Prop} (hp : Leaves levels p P)
    (hf : ∀ a left, left ≤ levels → P a left → Leaves left (f a) Q) :
    Leaves levels (p >>= f) Q := by
  intro s t b hs hb
  obtain ⟨a, u, ha, hb⟩ := bind_eq_ok.mp hb
  obtain ⟨hlimit, left, hle, hu, hPa⟩ := hp hs ha
  obtain ⟨hlimit', left', hle', ht, hQb⟩ := hf a left hle hPa hu hb
  exact ⟨hlimit'.trans hlimit, left', Nat.le_trans hle' hle, ht, hQb⟩

/-- What comes after a reader that gives back the levels it takes. -/
theorem after {f : α → Parse β} {R : α → Prop} {Q : β → Nat → Prop} (hp : Builds levels p R)
    (hf : ∀ a, R a → Leaves levels (f a) Q) : Leaves levels (p >>= f) Q := by
  intro s t b hs hb
  obtain ⟨a, u, ha, hb⟩ := bind_eq_ok.mp hb
  obtain ⟨hlimit, hu, hRa⟩ := hp hs ha
  obtain ⟨hlimit', hleft⟩ := hf a hRa hu hb
  exact ⟨hlimit'.trans hlimit, hleft⟩

/-- A step whose result does not matter. -/
theorem step {f : α → Parse β} {Q : β → Nat → Prop} (hp : Composed true true p)
    (hf : ∀ a, Leaves levels (f a) Q) : Leaves levels (p >>= f) Q :=
  .after hp.builds fun a _ => hf a

theorem mono (hp : Leaves levels p P) (h : ∀ a left, left ≤ levels → P a left → Q a left) :
    Leaves levels p Q := by
  intro s t a hs ha
  obtain ⟨hlimit, left, hle, ht, hP⟩ := hp hs ha
  exact ⟨hlimit, left, hle, ht, h a left hle hP⟩

theorem ite {c : Prop} [Decidable c] {p q : Parse α} (hp : Leaves levels p Q)
    (hq : Leaves levels q Q) : Leaves levels (if c then p else q) Q := by
  split
  · exact hp
  · exact hq

theorem goDeeper : Leaves levels goDeeper fun _ left => left < levels := by
  intro s t a hs ha
  unfold Grammar.goDeeper at ha
  split at ha
  · obtain ⟨-, rfl⟩ := EStateM.Result.ok.inj ha
    have hlimit := hs.limit
    refine ⟨rfl, levels - 1, Nat.sub_le _ _, ⟨?_, ?_⟩, by omega⟩
    · exact ⟨hs.within.rest, hs.within.stop, hs.within.comments⟩
    · dsimp only
      omega
  · simp at ha

theorem loop {round : α → Parse (Turn α)} {I D : α → Nat → Prop} {value : α}
    (hround : ∀ a left, left ≤ levels → I a left → Leaves left (round a) fun
      | .again b => I b
      | .done b => D b)
    (h : I value levels) : Leaves levels (loop round value) D := by
  intro s t a hs ha
  refine loop_ok
    (I := fun b u => u.limit = s.limit ∧ ∃ left ≤ levels, u.Spare left ∧ I b left)
    (D := fun b u => u.limit = s.limit ∧ ∃ left ≤ levels, u.Spare left ∧ D b left) ?_
    ⟨rfl, levels, Nat.le_refl _, hs, h⟩ ha
  rintro b u turn v ⟨hlimit, left, hle, hu, hb⟩ hv
  obtain ⟨hlimit', left', hle', hspare, hturn⟩ := hround b left hle hb hu hv
  have hle := Nat.le_trans hle' hle
  cases turn with
  | again _ => exact ⟨hlimit'.trans hlimit, left', hle, hspare, hturn⟩
  | done _ => exact ⟨hlimit'.trans hlimit, left', hle, hspare, hturn⟩

end Leaves

/-! ## The rules -/

/-- What an operand has grown by is paid for with levels. -/
def Paid (levels : Nat) (n : Node) (left : Nat) : Prop :=
  n.height + left ≤ tallest levels + levels + 2

/-- How tall the results of the rules are. -/
structure Rules.Builds (r : Rules) : Prop where
  composed : r.Composed
  expression : ∀ levels, Grammar.Builds levels r.expression (·.height ≤ tallest levels)
  conditional : ∀ levels,
    Grammar.Builds levels r.conditional (·.height ≤ tallest levels + levels + 3)
  unary : ∀ levels, Leaves levels r.unary (Paid levels)
  initializer : ∀ levels, Grammar.Builds levels r.initializer (·.height ≤ tallest levels)
  structSpecifier : ∀ levels,
    Grammar.Builds levels r.structSpecifier (·.height ≤ tallest levels + 3)
  statement : ∀ levels,
    Grammar.Builds levels r.statement fun nodes => ∀ n ∈ nodes, n.height ≤ tallest levels + 1

namespace Builds

open Node (height_texted_le height_plain_le)

variable {r : Rules}

theorem height_leaf {kind : Node.Kind} {text : String} {location : Position} :
    (Node.texted kind text location []).height = 1 := rfl

theorem height_absent {location : Position} : (Node.absent location).height = 1 := rfl

/-! ### Types and declarators -/

theorem typeSpecifier (h : r.Builds) : Builds levels (typeSpecifier r) fun type =>
    ∀ n ∈ type.structNode, n.height ≤ tallest levels + 3 := by
  refine .step .typeModifiers fun _ => .step .frontKind fun _ => .ite ?_ <| .ite ?_ <|
    .ite .stop ?_
  · exact .step .takeFront fun _ => .pure (by simp)
  · exact .bind (h.structSpecifier levels) fun n hn => .pure (by simpa using hn)
  · exact .pure (by simp)

theorem arraySize (h : r.Builds) :
    Builds levels (arraySize r) (·.height ≤ tallest levels) := by
  have hfour := four_le_tallest levels
  refine .step .takeFront fun _ => .step (.accept _) fun _ => .ite (.pure ?_) ?_
  · rw [height_absent]
    omega
  · exact .bind (h.expression levels) fun size hsize => .step (.requireMark _ _) fun _ =>
      .pure hsize

theorem arraySizes (h : r.Builds) : Builds levels (arraySizes r) fun sizes =>
    ∀ n ∈ sizes, n.height ≤ tallest levels := by
  refine .bind (P := fun sizes => ∀ n ∈ sizes, n.height ≤ tallest levels)
    (.loop (I := fun sizes => ∀ n ∈ sizes, n.height ≤ tallest levels) ?_ (by simp))
    fun sizes hsizes => .pure (by simpa using hsizes)
  intro sizes hsizes
  refine .step .frontKind fun _ => .ite ?_ (.pure hsizes)
  exact .bind (.arraySize h) fun size hsize => .pure (by simpa [hsize] using hsizes)

theorem parameter (h : r.Builds) : Builds levels (parameter r) (·.height ≤ 2) := by
  refine .step .here fun _ => .step .frontKind fun _ => .ite ?_ .stop
  refine .step (Composed.typeName h.composed).toTrue fun _ =>
    .bind (P := fun names => ∀ n ∈ names, n.height ≤ 1) ?_ fun names hnames =>
    .step (Composed.parameterSizes h.composed _).toTrue fun _ => .pure (height_texted_le hnames)
  refine .step .frontKind fun _ => .ite ?_ (.pure (by simp))
  exact .step .takeFront fun _ => .pure (by simp [height_leaf])

theorem parameters (h : r.Builds) :
    Builds levels (parameters r) fun found => ∀ n ∈ found, n.height ≤ 2 := by
  refine .bind (P := fun found => ∀ n ∈ found, n.height ≤ 2)
    (.loop (I := fun found => ∀ n ∈ found, n.height ≤ 2) ?_ (by simp))
    fun found hfound => .pure (by simpa using hfound)
  intro found hfound
  refine .step .frontKind fun _ => .ite ?_ ?_
  · refine .bind (P := (·.height ≤ 2)) ?_ fun last hlast => .pure (by simpa [hlast] using hfound)
    exact .step .here fun _ => .step (.requireMark _ _) fun _ => .step (.requireMark _ _) fun _ =>
      .step (.requireMark _ _) fun _ => .pure (by simp [height_leaf])
  · refine .bind (.parameter h) fun next hnext => .step (.accept _) fun _ => .ite ?_ ?_
    · exact .pure (by simpa [hnext] using hfound)
    · exact .pure (by simpa [hnext] using hfound)

theorem parameterList (h : r.Builds) :
    Builds levels (parameterList r) fun found => ∀ n ∈ found, n.height ≤ 2 := by
  refine .step .frontKind fun _ => .step .secondKind fun _ => .ite ?_ <| .ite ?_ (.parameters h)
  · exact .pure (by simp)
  · exact .step .takeFront fun _ => .pure (by simp)

theorem declarator (h : r.Builds) :
    Builds levels (declarator r) fun d => d.node.height ≤ tallest levels + 1 := by
  have hfour := four_le_tallest levels
  refine .step .pointers fun _ => .step .frontKind fun _ => .ite ?_ .stop
  refine .step .takeFront fun _ => .step (.accept _) fun _ => .ite ?_ ?_
  · refine .bind (.parameterList h) fun found hfound => .step (.requireMark _ _) fun _ => .pure ?_
    exact height_texted_le fun n hn => Nat.le_trans (hfound n hn) (by omega)
  · exact .bind (.arraySizes h) fun sizes hsizes => .pure (height_texted_le hsizes)

theorem structMembers (h : r.Builds) : Builds levels (structMembers r) fun found =>
    ∀ n ∈ found, n.height ≤ tallest levels + 2 := by
  refine .step .here fun _ => .bind (.typeSpecifier h) fun _ _ =>
    .bind (.commaSeparated (.declarator h)) fun declared hdeclared =>
    .step (.requireMark _ _) fun _ => .pure ?_
  intro n hn
  obtain ⟨d, hd, rfl⟩ := List.mem_map.mp hn
  exact height_texted_le (by simpa using hdeclared d hd)

theorem structBody (h : r.Builds) (tag : String) : Builds levels (structBody r tag) fun members =>
    ∀ n ∈ members, n.height ≤ tallest levels + 2 := by
  refine .bind (P := fun body => ∀ n ∈ body.members, n.height ≤ tallest levels + 2)
    (.loop (I := fun body => ∀ n ∈ body.members, n.height ≤ tallest levels + 2) ?_ (by simp))
    fun body hbody => .step (.reportPassed _ _) fun _ => .pure (by simpa using hbody)
  intro body hbody
  refine .step .frontKind fun _ => .ite (.pure hbody) <| .ite .stop <| .ite ?_ <| .ite ?_ ?_
  · refine .step (.reportPassed _ _) fun _ => .bind (.structMembers h) fun found hfound =>
      .pure ?_
    intro n hn
    rcases List.mem_append.mp hn with hn | hn
    · exact hfound n (List.mem_reverse.mp hn)
    · exact hbody n hn
  · exact .step (.passBraces _) fun _ => .pure hbody
  · exact .step .takeFront fun _ => .pure hbody

theorem structSpecifier (h : r.Builds) :
    Builds levels (structSpecifier r) (·.height ≤ tallest levels + 3) := by
  refine .step .takeFront fun _ => .step .frontKind fun _ => .ite ?_ .stop
  refine .step .takeFront fun _ => .step (.accept _) fun _ => .ite ?_ ?_
  · exact .bind (.structBody h _) fun members hmembers => .step (.requireMark _ _) fun _ =>
      .pure (height_texted_le hmembers)
  · exact .pure (by simp [height_leaf])

/-! ### Operands -/

theorem primary (h : r.Builds) : Builds levels (primary r) (·.height ≤ tallest levels) := by
  have hfour := four_le_tallest levels
  have hone : 1 ≤ tallest levels := by omega
  refine .step .front fun token => ?_
  split
  · refine .step .takeFront fun _ => ?_
    split
    · exact .pure hone
    · exact .stop
  · exact .step .takeFront fun _ => .step (.moreStrings _) fun _ => .pure hone
  · exact .step .takeFront fun _ => .pure hone
  · exact .step .takeFront fun _ => .pure hone
  · exact .step .takeFront fun _ => .bind (h.expression levels) fun _ hinner =>
      .step (.requireMark _ _) fun _ => .pure hinner
  · exact .stop

theorem arguments (h : r.Builds) : Builds levels (arguments r) fun given =>
    ∀ n ∈ given, n.height ≤ tallest levels :=
  .step .frontKind fun _ => .ite (.pure (by simp)) (.commaSeparated (h.expression levels))

/-- What stands behind an operand makes it one taller, or is tall itself. -/
theorem continued (h : r.Builds) {operand : Node} {k : Nat} (ho : operand.height ≤ k)
    (hk : tallest levels ≤ k) : Builds levels (continued r operand) (·.height ≤ k + 1) := by
  have hfour := four_le_tallest levels
  have hone : 1 ≤ k := by omega
  have hmember : ∀ kind, Builds levels (memberOf kind operand) (·.height ≤ k + 1) := fun kind =>
    .step .takeFront fun _ => .step (.require _ _) fun _ =>
      .pure (height_texted_le (by simp [ho, height_leaf, hone]))
  refine .step .frontKind fun kind => ?_
  split
  · refine .step .takeFront fun _ => .bind (h.expression levels) fun index hindex =>
      .step (.requireMark _ _) fun _ => .pure (height_texted_le ?_)
    simpa [ho] using Nat.le_trans hindex hk
  · refine .step .takeFront fun _ => .bind (.arguments h) fun given hgiven =>
      .step (.requireMark _ _) fun _ => .pure (height_texted_le ?_)
    simpa [ho] using fun n hn => Nat.le_trans (hgiven n hn) hk
  · exact hmember _
  · exact hmember _
  · exact .step .takeFront fun _ => .pure (height_texted_le (by simpa using ho))

/-- An operand pays a level for each index, call, member or update, and has one to spare. -/
theorem operand (h : r.Builds) : Leaves levels (operand r) fun n left =>
    n.height + left ≤ tallest levels + levels + 1 := by
  refine .after (.primary h) fun first hfirst => .loop
    (I := fun n left => left ≤ levels ∧ n.height + left ≤ tallest levels + levels + 1) ?_
    ⟨Nat.le_refl _, by omega⟩
  rintro inner now - ⟨hnow, hinner⟩
  refine .step .frontKind fun _ => .ite ?_ (.pure hinner)
  -- The round has taken a level, and may make the operand one taller for it.
  refine .bind .goDeeper fun _ left _ hleft => ?_
  have htall := tallest_mono (Nat.le_of_lt (Nat.lt_of_lt_of_le hleft hnow))
  have hlonger : Builds left (Grammar.continued r inner)
      (·.height ≤ tallest levels + levels - left + 1) := .continued h (by omega) (by omega)
  exact .after hlonger fun longer hlonger => .pure ⟨by omega, by omega⟩

/-! ### Ladders -/

/-- One level deeper an operand leaves room for one more node. -/
theorem deeperUnary (h : r.Builds) :
    Builds levels (Grammar.oneDeeper r.unary) (·.height + 1 ≤ tallest levels) := by
  refine .oneDeeper fun fewer hlevels => (h.unary fewer).builds fun n left hn => ?_
  have htall := tallest_succ fewer
  unfold Paid at hn
  subst hlevels
  omega

theorem deeperConditional (h : r.Builds) :
    Builds levels (Grammar.oneDeeper r.conditional) (·.height + 1 ≤ tallest levels) := by
  refine .oneDeeper fun fewer hlevels => (h.conditional fewer).mono fun n hn => ?_
  have htall := tallest_succ fewer
  subst hlevels
  omega

theorem deeperInitializer (h : r.Builds) :
    Builds levels (Grammar.oneDeeper r.initializer) (·.height + 1 ≤ tallest levels) := by
  refine .oneDeeper fun fewer hlevels => (h.initializer fewer).mono fun n hn => ?_
  have htall := tallest_succ fewer
  subst hlevels
  omega

theorem height_over_le {kind : Node.Kind} {text : String} {location : Position} {n : Node} {k : Nat}
    (h : n.height + 1 ≤ k) : (Node.texted kind text location [n]).height ≤ k :=
  Nat.le_trans (height_texted_le (k := n.height) (by simp)) h

theorem sizeOf (h : r.Builds) : Builds levels (sizeOf r) (·.height ≤ tallest levels) := by
  have hfour := four_le_tallest levels
  refine .step .takeFront fun _ => .step .typeInParens fun _ => .ite ?_ ?_
  · refine .step .takeFront fun _ => .step (Composed.typeName h.composed).toTrue fun _ =>
      .step (.requireMark _ _) fun _ => .pure ?_
    exact Nat.le_trans (height_texted_le (k := 0) (by simp)) (by omega)
  · exact .bind (.deeperUnary h) fun inner hinner =>
      .pure (Nat.le_trans (height_plain_le (k := inner.height) (by simp)) hinner)

theorem cast (h : r.Builds) : Builds levels (cast r) (·.height ≤ tallest levels) :=
  .step .takeFront fun _ => .step (Composed.typeName h.composed).toTrue fun _ =>
    .step (.requireMark _ _) fun _ => .bind (.deeperUnary h) fun _ hinner =>
    .pure (height_over_le hinner)

end Builds

namespace Leaves

open Node (height_texted_le)

variable {r : Rules}

theorem paid {p : Parse Node} (h : Builds levels p (·.height ≤ tallest levels)) :
    Leaves levels p (Paid levels) :=
  .of_builds h fun n hn => by unfold Paid; omega

theorem unary (h : r.Builds) : Leaves levels (unary r) (Paid levels) := by
  have hoperand : Leaves levels (operand r) (Paid levels) :=
    (Builds.operand h).mono fun n left _ hn => by unfold Paid; omega
  refine .step .frontKind fun kind => ?_
  split
  · refine .ite ?_ <| .ite ?_ hoperand
    · exact .step .takeFront fun _ => .after (.deeperUnary h) fun _ hinner =>
        .paid (.pure (Builds.height_over_le hinner))
    · refine .step .takeFront fun op => .bind (Builds.operand h) fun inner left _ hinner =>
        .pure ?_
      have hover : (Node.texted .unary op.text op.location [inner]).height ≤ inner.height + 1 :=
        height_texted_le (by simp)
      unfold Paid
      omega
  · exact .paid (.sizeOf h)
  · exact .step .typeInParens fun _ => .ite (.paid (.cast h)) hoperand

/-- A chain pays a level for each of its operators. -/
theorem chain (level : Nat) {operand : Parse Node}
    (h : ∀ levels, Leaves levels operand (Paid levels)) :
    Leaves levels (chain level operand) (Paid levels) := by
  refine .bind (h levels) fun first left hle hfirst => .loop
    (I := fun n now => now ≤ levels ∧ Paid levels n now) ?_ ⟨hle, hfirst⟩
  rintro inner now - ⟨hnow, hinner⟩
  refine .step .frontKind fun _ => .ite ?_ (.pure hinner)
  -- The left side has its level back in height, the right side is read with one level less.
  refine .bind .goDeeper fun _ fewer _ hfewer => .step .takeFront fun op =>
    .bind (h fewer) fun right left' hleft hright => .pure ⟨by omega, ?_⟩
  have htall := tallest_mono (Nat.le_of_lt (Nat.lt_of_lt_of_le hfewer hnow))
  have hover : (Node.texted .binary op.text op.location [inner, right]).height ≤
      max inner.height right.height + 1 := height_texted_le (by simp)
  unfold Paid at hinner hright ⊢
  omega

theorem binary (h : r.Builds) (level : Nat) :
    ∀ levels, Leaves levels (binary r level) (Paid levels) := by
  induction level with
  | zero => exact fun _ => .unary h
  | succ level ih => exact fun _ => .chain _ ih

end Leaves

namespace Builds

open Node (height_texted_le height_plain_le)

variable {r : Rules}

theorem conditional (h : r.Builds) :
    Builds levels (conditional r) (·.height ≤ tallest levels + levels + 3) := by
  refine Leaves.builds (Q := fun n _ => n.height ≤ tallest levels + levels + 3)
    (.bind (Leaves.binary h 10 levels) fun test left hle htest => ?_) fun _ _ h => h
  have htall := tallest_mono hle
  unfold Paid at htest
  refine .step .frontKind fun _ => .ite ?_ (.pure (by omega))
  -- The alternatives are read with the levels that the condition has left.
  refine .step .takeFront fun _ => .after (h.expression left) fun whenTrue htrue =>
    .step (.requireMark _ _) fun _ => .after (.deeperConditional h) fun whenFalse hfalse => ?_
  have htest : test.height ≤ tallest levels + levels + 2 := by omega
  have htrue : whenTrue.height ≤ tallest levels + levels + 2 := by omega
  have hfalse : whenFalse.height ≤ tallest levels + levels + 2 := by omega
  exact .pure (height_texted_le (by simp [htest, htrue, hfalse]))

theorem expression (h : r.Builds) : Builds levels (expression r) (·.height ≤ tallest levels) := by
  refine .oneDeeper fun fewer hlevels => .bind (.conditional h) fun target htarget => ?_
  have htall := tallest_succ fewer
  subst hlevels
  refine .step .frontKind fun _ => .ite ?_ (.pure (by omega))
  refine .step .takeFront fun op => .bind (h.expression fewer) fun value hvalue => .pure ?_
  have hover : (Node.texted .assignment op.text op.location [target, value]).height ≤
      max target.height value.height + 1 := height_texted_le (by simp)
  omega

theorem initializer (h : r.Builds) :
    Builds levels (initializer r) (·.height ≤ tallest levels) := by
  have hfour := four_le_tallest levels
  refine .step .frontKind fun _ => .ite ?_ (h.expression levels)
  refine .step .takeFront fun brace => .bind (P := fun items => ∀ n ∈ items,
      n.height ≤ tallest levels - 1) (.loop (I := fun items => ∀ n ∈ items,
      n.height ≤ tallest levels - 1) ?_ (by simp)) fun items hitems =>
    .step (.requireMark _ _) fun _ => .pure ?_
  · intro items hitems
    refine .step .frontKind fun _ => .ite (.pure hitems) ?_
    refine .bind (.deeperInitializer h) fun next hnext => .step (.accept _) fun _ => ?_
    have hnext : next.height ≤ tallest levels - 1 := by omega
    exact .ite (.pure (by simpa [hnext] using hitems)) (.pure (by simpa [hnext] using hitems))
  · have hlist : (Node.plain .initializerList brace.location items.reverse).height ≤
        tallest levels - 1 + 1 := height_plain_le (by simpa using hitems)
    omega

end Builds

end CSurvey.Grammar
