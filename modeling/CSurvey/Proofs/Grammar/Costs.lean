import CSurvey.Proofs.Declaration.Bodies
import CSurvey.Proofs.Expression.Completeness
import CSurvey.Proofs.Grammar.Limits

/-! # What nesting costs

How many levels of depth a reader takes on given words, and how many of them it keeps when it is
done. Where that many levels are left the reader succeeds, and where they are not it fails because
constructs nest too deep. -/

namespace CSurvey.Grammar

variable {s u v : State} {w : Word} {ws mid rest : List Word}

/-- The later state stands before the words, so many levels deeper, and within the limit. Of the
tokens taken each word was one. -/
structure State.Stands (s : State) (rest : List Word) (used : Nat) (v : State) : Prop where
  script : v.script = rest
  limit : v.limit = s.limit
  depth : v.depth = s.depth + used
  room : v.depth ≤ v.limit
  length : v.rest.length + s.script.length ≤ s.rest.length + v.script.length

namespace State.Stands

variable {m n : Nat}

theorem refl (h : s.script = ws) (hroom : s.depth ≤ s.limit) : s.Stands ws 0 s :=
  ⟨h, rfl, rfl, hroom, Nat.le_refl _⟩

theorem trans (h : s.Stands mid m u) (h' : u.Stands rest n v) : s.Stands rest (m + n) v := by
  have hdepth := h.depth
  have hdepth' := h'.depth
  have hlength := h.length
  have hlength' := h'.length
  exact ⟨h'.script, h'.limit.trans h.limit, by omega, h'.room, by omega⟩

theorem dropFront (h : s.script = w :: ws) (hroom : s.depth ≤ s.limit) :
    s.Stands ws 0 s.dropFront := by
  have hlt := (State.open_of_script h).length_dropFront
  have hdrop := s.script_dropFront h
  exact ⟨hdrop, rfl, rfl, hroom, by rw [h, hdrop, List.length_cons]; omega⟩

theorem deeper (h : s.script = ws) (hroom : s.depth < s.limit) : s.Stands ws 1 s.deeper :=
  ⟨h, rfl, rfl, hroom, Nat.le_refl _⟩

end State.Stands

/-- On the words up to `rest` the reader takes `need` levels and keeps `used` of them, and its
result is as in `Q`. -/
def Costs {α : Type} (p : Parse α) (ws rest : List Word) (need used : Nat) (Q : α → Prop) : Prop :=
  ∀ ⦃s : State⦄, s.script = ws → s.depth ≤ s.limit →
    (s.depth + need ≤ s.limit → ∃ a v, p s = .ok a v ∧ Q a ∧ s.Stands rest used v) ∧
      (s.limit < s.depth + need → TooDeep p s)

/-- What the rounds of a loop cost, from any value on. -/
def RoundsCost {α : Type} (round : α → Parse (Turn α)) (ws rest : List Word) (need used : Nat)
    (Q : α → Prop) : Prop :=
  ∀ (a : α) (fuel : List Token) ⦃s : State⦄, s.script = ws → s.rest.length ≤ fuel.length →
    s.depth ≤ s.limit →
    (s.depth + need ≤ s.limit →
        ∃ b v, rounds round fuel a s = .ok b v ∧ Q b ∧ s.Stands rest used v) ∧
      (s.limit < s.depth + need → TooDeep (rounds round fuel a) s)

/-- Another round is asked for. -/
def Turn.IsAgain {α : Type} : Turn α → Prop
  | .again _ => True
  | .done _ => False

/-- No round is asked for, and the result is as in `Q`. -/
def Turn.IsDone {α : Type} (Q : α → Prop) : Turn α → Prop
  | .again _ => False
  | .done a => Q a

namespace Costs

variable {α β : Type} {p : Parse α} {need used m n k : Nat} {Q : α → Prop} {R : β → Prop}

/-! ## Steps -/

theorem pure {a : α} (h : Q a) : Costs (pure a) ws ws 0 0 Q := by
  intro s hs hroom
  exact ⟨fun _ => ⟨a, s, rfl, h, .refl hs hroom⟩, fun hlt => absurd hlt (by omega)⟩

theorem cast (h : Costs p ws rest m n Q) (hneed : need = m) (hused : used = n) :
    Costs p ws rest need used Q := by
  rwa [hneed, hused]

/-- What the first reader keeps is gone when the second one starts. -/
theorem bind {f : α → Parse β} (hp : Costs p ws mid m used Q)
    (hf : ∀ a, Q a → Costs (f a) mid rest n k R) :
    Costs (p >>= f) ws rest (max m (used + n)) (used + k) R := by
  intro s hs hroom
  obtain ⟨hok, hdeep⟩ := hp hs hroom
  refine ⟨fun hfits => ?_, fun hlt => ?_⟩
  · obtain ⟨a, v, ha, hQ, hv⟩ := hok (by omega)
    have hdepth := hv.depth
    have hlimit := hv.limit
    obtain ⟨b, w, hb, hR, hw⟩ := (hf a hQ hv.script hv.room).1 (by omega)
    exact ⟨b, w, bind_eq_ok.mpr ⟨a, v, ha, hb⟩, hR, hv.trans hw⟩
  · by_cases hfits : s.depth + m ≤ s.limit
    · obtain ⟨a, v, ha, hQ, hv⟩ := hok hfits
      have hdepth := hv.depth
      have hlimit := hv.limit
      exact .next ha hlimit ((hf a hQ hv.script hv.room).2 (by omega))
    · exact (hdeep (by omega)).bind f

/-- The first reader costs nothing. -/
theorem bindFree {f : α → Parse β} (hp : Costs p ws mid 0 0 Q)
    (hf : ∀ a, Q a → Costs (f a) mid rest need used R) :
    Costs (p >>= f) ws rest need used R :=
  (hp.bind hf).cast (by omega) (by omega)

/-- What follows costs nothing, and gives nothing back. -/
theorem bindPure {f : α → Parse β} (hp : Costs p ws rest need used Q) (hle : used ≤ need)
    (hf : ∀ a, Q a → Costs (f a) rest mid 0 0 R) : Costs (p >>= f) ws mid need used R :=
  (hp.bind hf).cast (by omega) (by omega)

/-- A reader that does nothing before such words. -/
theorem stays {a : α} (h : ∀ s : State, s.script = ws → p s = .ok a s) (hQ : Q a) :
    Costs p ws ws 0 0 Q := by
  intro s hs hroom
  exact ⟨fun _ => ⟨a, s, h s hs, hQ, .refl hs hroom⟩, fun hlt => absurd hlt (by omega)⟩

/-- A look at the state costs nothing. -/
theorem bindLook {g : State → α} {f : α → Parse β} {Q : α → Prop}
    (hg : ∀ s : State, s.script = ws → Q (g s))
    (hf : ∀ a, Q a → Costs (f a) ws rest need used R) :
    Costs ((fun s => .ok (g s) s) >>= f) ws rest need used R := by
  intro s hs hroom
  exact hf (g s) (hg s hs) hs hroom

theorem bindHere {f : Position → Parse β} (hf : ∀ a, Costs (f a) ws rest need used R) :
    Costs (here >>= f) ws rest need used R :=
  bindLook (Q := Always) (fun _ _ => trivial) fun a _ => hf a

theorem bindKind {f : Token.Kind → Parse β} {kind : Token.Kind} (hk : headKind ws = kind)
    (hf : Costs (f kind) ws rest need used R) :
    Costs (frontKind >>= f) ws rest need used R := by
  refine bindLook (Q := (· = kind)) (fun s hs => (front_kind_of_script hs).trans hk) ?_
  rintro _ rfl
  exact hf

theorem bindSecond {f : Token.Kind → Parse β} {kind : Token.Kind} (hk : headKind ws = kind)
    (hf : Costs (f kind) (w :: ws) rest need used R) :
    Costs (secondKind >>= f) (w :: ws) rest need used R := by
  refine bindLook (Q := (· = kind)) (fun s hs => (State.second_kind hs).trans hk) ?_
  rintro _ rfl
  exact hf

theorem bindFront {f : Token → Parse β}
    (hf : ∀ t, t.word = w → Costs (f t) (w :: ws) rest need used R) :
    Costs (front >>= f) (w :: ws) rest need used R :=
  bindLook (fun s hs => s.front_word hs) hf

theorem bindTake {f : Token → Parse β} (hf : ∀ t, t.word = w → Costs (f t) ws rest need used R) :
    Costs (takeFront >>= f) (w :: ws) rest need used R := by
  refine bindFree (Q := fun t => t.word = w) (fun s hs hroom => ?_) hf
  exact ⟨fun _ => ⟨_, _, rfl, s.front_word hs, .dropFront hs hroom⟩,
    fun hlt => absurd hlt (by omega)⟩

theorem ifPos {c : Prop} [Decidable c] {q : Parse α} (hc : c) (h : Costs p ws rest m n Q) :
    Costs (if c then p else q) ws rest m n Q := by
  rwa [if_pos hc]

theorem ifNeg {c : Prop} [Decidable c] {q : Parse α} (hc : ¬c) (h : Costs p ws rest m n Q) :
    Costs (if c then q else p) ws rest m n Q := by
  rwa [if_neg hc]

theorem bindAccept {f : Bool → Parse β} {kind : Token.Kind} (hw : w.1 = kind)
    (hf : Costs (f true) ws rest need used R) :
    Costs (accept kind >>= f) (w :: ws) rest need used R := by
  have haccept : Costs (accept kind) (w :: ws) ws 0 0 (· = true) :=
    bindKind hw (ifPos rfl (bindTake fun _ _ => pure rfl))
  refine haccept.bindFree ?_
  rintro _ rfl
  exact hf

theorem bindRefuse {f : Bool → Parse β} {kind : Token.Kind} (hk : headKind ws ≠ kind)
    (hf : Costs (f false) ws rest need used R) :
    Costs (accept kind >>= f) ws rest need used R := by
  refine bindFree (Q := (· = false)) (bindKind rfl (ifNeg hk (pure rfl))) ?_
  rintro _ rfl
  exact hf

theorem bindRequire {f : Token → Parse β} {kind : Token.Kind} {place : Place} (hw : w.1 = kind)
    (hf : ∀ t, Costs (f t) ws rest need used R) :
    Costs (require kind place >>= f) (w :: ws) rest need used R := by
  have hrequire : Costs (require kind place) (w :: ws) ws 0 0 Always := by
    refine bindKind hw (ifPos rfl fun s hs hroom => ?_)
    exact ⟨fun _ => ⟨_, _, rfl, trivial, .dropFront hs hroom⟩, fun hlt => absurd hlt (by omega)⟩
  exact hrequire.bindFree fun t _ => hf t

theorem bindMark {f : Token → Parse β} {mark : Token.Delimiter} {place : Place}
    (hw : w.1 = .delimiter mark) (hf : ∀ t, Costs (f t) ws rest need used R) :
    Costs (requireMark mark place >>= f) (w :: ws) rest need used R :=
  bindRequire hw hf

theorem bindComments {f : List Node → Parse β}
    (hf : ∀ comments, Costs (f comments) ws rest need used R) :
    Costs (takeComments >>= f) ws rest need used R := by
  refine bindFree (Q := Always) (fun s hs hroom => ?_) fun comments _ => hf comments
  refine ⟨fun _ => ⟨_, _, rfl, trivial, ?_⟩, fun hlt => absurd hlt (by omega)⟩
  refine ⟨s.script_takeComments.trans hs, rfl, rfl, hroom, ?_⟩
  rw [s.script_takeComments]
  exact Nat.add_le_add_right s.length_upcoming_le _

/-! ## Levels -/

/-- A level that is kept. -/
theorem bindDeeper {f : Unit → Parse β} (hf : Costs (f ()) ws rest need used R) :
    Costs (goDeeper >>= f) ws rest (need + 1) (used + 1) R := by
  have hdeeper : Costs goDeeper ws ws 1 1 Always := by
    intro s hs hroom
    refine ⟨fun hfits => ?_, fun hlt => ⟨s.front.location, s, if_neg (by omega)⟩⟩
    exact ⟨(), _, goDeeper_apply hfits, trivial, .deeper hs hfits⟩
  exact (hdeeper.bind fun _ _ => hf).cast (by omega) (by omega)

/-- A level that is given back, with all that was taken below it. -/
theorem oneDeeper (h : Costs p ws rest m n Q) : Costs (oneDeeper p) ws rest (m + 1) 0 Q := by
  intro s hs hroom
  by_cases hdepth : s.depth < s.limit
  · have hroom' : s.deeper.depth ≤ s.deeper.limit := hdepth
    have hlevel : s.deeper.depth = s.depth + 1 := rfl
    have hlimit : s.deeper.limit = s.limit := rfl
    obtain ⟨hok, hdeep⟩ := h (s := s.deeper) hs hroom'
    refine ⟨fun hfits => ?_, fun hlt => ?_⟩
    · obtain ⟨a, v, ha, hQ, hv⟩ := hok (by omega)
      have hback : v.limit = s.limit := hv.limit
      exact ⟨a, _, oneDeeper_of_ok hdepth ha, hQ, hv.script, hback, rfl,
        by rw [hback]; exact hroom, hv.length⟩
    · obtain ⟨place, failed, hfail⟩ := hdeep (by omega)
      exact ⟨place, _, oneDeeper_eq_error.mpr (.inr ⟨hdepth, failed, hfail, rfl⟩)⟩
  · refine ⟨fun hfits => absurd hfits (by omega), fun _ => ?_⟩
    exact ⟨_, s, oneDeeper_eq_error.mpr (.inl ⟨hdepth, rfl, rfl⟩)⟩

/-! ## Loops -/

variable {round : α → Parse (Turn α)}

theorem loop {a : α} (h : RoundsCost round ws rest need used Q) :
    Costs (loop round a) ws rest need used Q :=
  fun s hs hroom => h a s.rest hs (Nat.le_refl _) hroom

/-- The last round. -/
theorem lastRound (h : ∀ a, Costs (round a) ws rest m n (Turn.IsDone Q)) :
    RoundsCost round ws rest m n Q := by
  intro a fuel s hs _ hroom
  obtain ⟨hok, hdeep⟩ := h a hs hroom
  refine ⟨fun hfits => ?_, fun hlt => ?_⟩
  · obtain ⟨turn, v, hturn, hQ, hv⟩ := hok hfits
    cases turn with
    | again _ => exact hQ.elim
    | done b => exact ⟨b, v, rounds_done hturn fuel, hQ, hv⟩
  · exact (hdeep hlt).rounds fuel

/-- A round that takes words, and the rounds behind it. -/
theorem nextRound (h : ∀ a, Costs (round a) ws mid m used Turn.IsAgain)
    (hshorter : mid.length < ws.length) (hmore : RoundsCost round mid rest n k Q) :
    RoundsCost round ws rest (max m (used + n)) (used + k) Q := by
  intro a fuel s hs hfuel hroom
  obtain ⟨hok, hdeep⟩ := h a hs hroom
  have hwords := s.length_script_le
  obtain ⟨x, fuel, rfl⟩ : ∃ x fuel', fuel = x :: fuel' := by
    refine List.exists_cons_of_ne_nil fun hnil => ?_
    rw [hnil, List.length_nil] at hfuel
    rw [hs] at hwords
    omega
  have hround : s.depth + m ≤ s.limit → ∃ b v, round a s = .ok (.again b) v ∧
      s.Stands mid used v ∧ v.rest.length ≤ fuel.length := by
    intro hfits
    obtain ⟨turn, v, hturn, hagain, hv⟩ := hok hfits
    have hlength := hv.length
    rw [hs, hv.script] at hlength
    rw [List.length_cons] at hfuel
    cases turn with
    | again b => exact ⟨b, v, hturn, hv, by omega⟩
    | done _ => exact hagain.elim
  refine ⟨fun hfits => ?_, fun hlt => ?_⟩
  · obtain ⟨b, v, hturn, hv, hleft⟩ := hround (by omega)
    have hdepth := hv.depth
    have hlimit := hv.limit
    obtain ⟨c, t, hc, hQ, ht⟩ := (hmore b fuel hv.script hleft hv.room).1 (by omega)
    exact ⟨c, t, (rounds_again hturn x fuel).trans hc, hQ, hv.trans ht⟩
  · by_cases hfits : s.depth + m ≤ s.limit
    · obtain ⟨b, v, hturn, hv, hleft⟩ := hround hfits
      have hdepth := hv.depth
      have hlimit := hv.limit
      exact .next hturn hlimit ((hmore b fuel hv.script hleft hv.room).2 (by omega))
    · exact (hdeep (by omega)).bind _

/-! ## Expressions -/

variable {r : Rules}

theorem primary_identifier (hw : w.1 = .identifier) :
    Costs (primary r) (w :: ws) ws 0 0 Always := by
  refine bindFront fun t ht => ?_
  have hk : t.kind = .identifier := by rw [← hw, ← ht, Token.word_fst]
  simp only [hk]
  exact bindTake fun _ _ => pure trivial

theorem primary_number {x : Binary64} (hw : w.1 = .number) (hx : Numeral.read w.2 = some x) :
    Costs (primary r) (w :: ws) ws 0 0 Always := by
  refine bindFront fun t ht => ?_
  have hk : t.kind = .number := by rw [← hw, ← ht, Token.word_fst]
  have hx' : Numeral.read t.text = some x := by rw [← hx, ← ht, Token.word_snd]
  simp only [hk, hx']
  exact bindTake fun _ _ => pure trivial

theorem primary_parens {c : Word} (hw : w.1 = .delimiter .leftParen)
    (hc : c.1 = .delimiter .rightParen)
    (h : Costs r.expression ws (c :: rest) need 0 Always) :
    Costs (primary r) (w :: ws) rest need 0 Always := by
  refine bindFront fun t ht => ?_
  have hk : t.kind = .delimiter .leftParen := by rw [← hw, ← ht, Token.word_fst]
  simp only [hk]
  exact bindTake fun _ _ => h.bindPure (Nat.zero_le _) fun _ _ => bindMark hc fun _ => pure trivial

/-- A call without arguments goes on with an operand. -/
theorem operandRound_call {c : Word} (hw : w.1 = .delimiter .leftParen)
    (hc : c.1 = .delimiter .rightParen) (operand : Node) :
    Costs (operandRound r operand) (w :: c :: ws) ws 1 1 Turn.IsAgain := by
  have harguments : Costs (arguments r) (c :: ws) (c :: ws) 0 0 Always :=
    bindKind hc (ifPos rfl (pure trivial))
  have hcall : Costs (continued r operand) (w :: c :: ws) ws 0 0 Always := by
    refine bindKind hw (bindTake fun _ _ => ?_)
    exact harguments.bindFree fun _ _ => bindMark hc fun _ => pure trivial
  exact bindKind hw (ifPos rfl (bindDeeper (hcall.bindFree fun _ _ => pure trivial)))

theorem operandRound_done (hrest : Tier.operand.goesOn (headKind rest) = false) (operand : Node) :
    Costs (operandRound r operand) rest rest 0 0 (Turn.IsDone Always) := by
  refine bindKind rfl (ifNeg ?_ (pure trivial))
  simp only [Tier.goesOn, goesOnUpTo, Bool.or_eq_false_iff] at hrest
  simp [hrest]

theorem operand (h : Costs (primary r) ws mid m used Always)
    (hmore : RoundsCost (operandRound r) mid rest n k Always) :
    Costs (operand r) ws rest (max m (used + n)) (used + k) Always :=
  h.bind fun _ _ => loop hmore

/-- An operand with nothing behind it. -/
theorem operand_of_primary (h : Costs (primary r) ws rest need used Always) (hle : used ≤ need)
    (hrest : Tier.operand.goesOn (headKind rest) = false) :
    Costs (Grammar.operand r) ws rest need used Always :=
  (operand h (lastRound (operandRound_done hrest))).cast (by omega) (by omega)

/-- The words open with no sign, no cast and no size. -/
def OpensOperand (ws : List Word) : Prop :=
  ∃ w us, ws = w :: us ∧ (w.1 = .identifier ∨ w.1 = .number ∨
    w.1 = .delimiter .leftParen ∧ (headKind us).startsType = false)

theorem unary_of_operand (hws : OpensOperand ws)
    (h : Costs (Grammar.operand r) ws rest need used Always) :
    Costs (unary r) ws rest need used Always := by
  obtain ⟨w, us, rfl, hw⟩ := hws
  have hparens : (decide (w.1 = .delimiter .leftParen) && (headKind us).startsType) = false := by
    rcases hw with hw | hw | ⟨-, htype⟩
    · simp [hw]
    · simp [hw]
    · simp [htype]
  have hnone : Costs typeInParens (w :: us) (w :: us) 0 0 (· = false) :=
    bindKind rfl (bindSecond rfl (pure hparens))
  have hrest : ∀ kind, w.1 = kind → kind = .identifier ∨ kind = .number ∨
      kind = .delimiter .leftParen → Costs (unary r) (w :: us) rest need used Always := by
    rintro kind hkind hopens
    refine bindKind hkind ?_
    rcases hopens with rfl | rfl | rfl
    all_goals
      refine hnone.bindFree fun _ hfalse => ?_
      rw [hfalse]
      exact h
  rcases hw with hw | hw | ⟨hw, -⟩
  · exact hrest _ hw (.inl rfl)
  · exact hrest _ hw (.inr (.inl rfl))
  · exact hrest _ hw (.inr (.inr rfl))

/-- The level of a sign is given back behind its operand. -/
theorem unary_sign {sign : Token.Operator} (hw : w.1 = .operator sign) (hsign : sign.isSign = true)
    (h : Costs r.unary ws rest need used Always) :
    Costs (unary r) (w :: ws) rest (need + 1) 0 Always := by
  refine bindKind hw (ifPos hsign (bindTake fun _ _ => ?_))
  exact h.oneDeeper.bindPure (Nat.zero_le _) fun _ _ => pure trivial

theorem chainRound_done {level : Nat} {operand : Parse Node}
    (hrest : isOfLevel level (headKind rest) = false) (left : Node) :
    Costs (chainRound level operand left) rest rest 0 0 (Turn.IsDone Always) :=
  bindKind rfl (ifNeg (by simp [hrest]) (pure trivial))

/-- An operator of a chain takes a level and keeps it. -/
theorem chainRound_again {level : Nat} {operand : Parse Node}
    (hw : isOfLevel level w.1 = true) (h : Costs operand ws rest need used Always)
    (hle : used ≤ need) (left : Node) :
    Costs (chainRound level operand left) (w :: ws) rest (need + 1) (used + 1) Turn.IsAgain := by
  refine bindKind rfl (ifPos hw (bindDeeper (bindTake fun _ _ => ?_)))
  exact h.bindPure hle fun _ _ => pure trivial

/-- Operands without an operator between them. -/
theorem binary_of_unary (h : Costs (unary r) ws rest need used Always) (hle : used ≤ need)
    {level : Nat} (hrest : goesOnUpTo level (headKind rest) = false) :
    Costs (binary r level) ws rest need used Always := by
  induction level with
  | zero => exact h
  | succ level ih =>
      obtain ⟨htighter, hlevel⟩ := goesOnUpTo_succ hrest
      have hrounds : RoundsCost (chainRound (level + 1) (binary r level)) rest rest 0 0 Always :=
        lastRound (chainRound_done hlevel)
      exact ((ih htighter).bind fun _ _ => loop hrounds).cast (by omega) (by omega)

theorem conditional_of_binary (h : Costs (binary r 10) ws rest need used Always) (hle : used ≤ need)
    (hrest : headKind rest ≠ .operator .question) :
    Costs (conditional r) ws rest need used Always :=
  h.bindPure hle fun _ _ => bindKind rfl (ifNeg hrest (pure trivial))

/-- An expression gives back all the levels of its operands and operators. -/
theorem expression_of_conditional (h : Costs (conditional r) ws rest need used Always)
    (hle : used ≤ need) (hrest : (headKind rest).isAssignment = false) :
    Costs (expression r) ws rest (need + 1) 0 Always :=
  oneDeeper (h.bindPure hle fun _ _ => bindKind rfl (ifNeg (by simp [hrest]) (pure trivial)))

theorem expression_of_unary (h : Costs (unary r) ws rest need used Always) (hle : used ≤ need)
    (hrest : Tier.expression.goesOn (headKind rest) = false) :
    Costs (expression r) ws rest (need + 1) 0 Always := by
  simp only [Tier.goesOn, Bool.or_eq_false_iff, decide_eq_false_iff_not] at hrest
  obtain ⟨⟨hten, hquestion⟩, hassign⟩ := hrest
  exact expression_of_conditional (conditional_of_binary (binary_of_unary h hle hten) hle hquestion)
    hle hassign

theorem goesOn_operand_of_expression {kind : Token.Kind}
    (h : Tier.expression.goesOn kind = false) : Tier.operand.goesOn kind = false := by
  simp_all [Tier.goesOn, goesOnUpTo]

theorem expression_of_primary (hws : OpensOperand ws)
    (h : Costs (primary r) ws rest need used Always) (hle : used ≤ need)
    (hrest : Tier.expression.goesOn (headKind rest) = false) :
    Costs (expression r) ws rest (need + 1) 0 Always := by
  have hoperand := operand_of_primary h hle (goesOn_operand_of_expression hrest)
  exact expression_of_unary (unary_of_operand hws hoperand) hle hrest

/-! ## Declarations -/

theorem typeSpecifier_base (hw : w.1.isBaseType = true) :
    Costs (typeSpecifier r) (w :: ws) ws 0 0 Always := by
  have hmodifiers : Costs typeModifiers (w :: ws) (w :: ws) 0 0 Always := by
    refine stays (fun s hs => typeModifiers_none ?_) trivial
    rw [front_kind_of_script hs]
    exact Token.Kind.isTypeModifier_of_isBaseType hw
  exact hmodifiers.bindFree fun _ _ => bindKind rfl (ifPos hw (bindTake fun _ _ => pure trivial))

theorem pointers_absent (hws : headKind ws ≠ .operator .star) :
    Costs pointers ws ws 0 0 Always :=
  stays (fun _ hs => pointers_none (by rwa [front_kind_of_script hs])) trivial

/-- The name of a variable without array sizes. -/
theorem declarator_variable (hw : w.1 = .identifier) (hparen : headKind ws ≠ .delimiter .leftParen)
    (hbracket : headKind ws ≠ .delimiter .leftBracket) :
    Costs (declarator r) (w :: ws) ws 0 0 (·.declaresFunction = false) := by
  have hstars : headKind (w :: ws) ≠ .operator .star := by simp [hw]
  have hsizes : Costs (arraySizes r) ws ws 0 0 Always :=
    bindFree (Q := Always) (loop (lastRound fun _ =>
      bindKind rfl (ifNeg hbracket (pure trivial)))) fun _ _ => pure trivial
  refine (pointers_absent hstars).bindFree fun _ _ => bindKind hw (ifPos rfl
    (bindTake fun _ _ => bindRefuse hparen (hsizes.bindFree fun _ _ => pure ?_)))
  exact decide_eq_false nofun

/-- The name of a function without parameters. -/
theorem declarator_function {o c : Word} (hw : w.1 = .identifier)
    (ho : o.1 = .delimiter .leftParen) (hc : c.1 = .delimiter .rightParen) :
    Costs (declarator r) (w :: o :: c :: ws) ws 0 0 (·.declaresFunction = true) := by
  have hstars : headKind (w :: o :: c :: ws) ≠ .operator .star := by simp [hw]
  have hparameters : Costs (parameterList r) (c :: ws) (c :: ws) 0 0 Always :=
    bindKind hc (bindSecond rfl (ifPos rfl (pure trivial)))
  exact (pointers_absent hstars).bindFree fun _ _ => bindKind hw (ifPos rfl
    (bindTake fun _ _ => bindAccept ho (hparameters.bindFree fun _ _ => bindMark hc fun _ =>
      pure rfl)))

/-- A variable with an initial value costs what the value does. -/
theorem declaration_initialized {x o e c : Word} {es : List Word} (hw : w.1.isBaseType = true)
    (hx : x.1 = .identifier) (ho : o.1 = .operator .assign) (he : e.1 ≠ .delimiter .leftBrace)
    (hc : c.1 = .delimiter .semicolon)
    (h : Costs r.expression (e :: es) (c :: rest) need 0 Always) :
    Costs (declaration r) (w :: x :: o :: e :: es) rest need 0 Always := by
  have hvalue : Costs (initializer r) (e :: es) (c :: rest) need 0 Always :=
    bindKind rfl (ifNeg he h)
  have hdeclared : ∀ location type body (d : Declarator), d.declaresFunction = false →
      Costs (declared r location type d body) (o :: e :: es) (c :: rest) need 0 Always :=
    fun _ _ _ _ hd => ifNeg (by simp [hd]) (bindAccept ho
      (hvalue.bindPure (Nat.zero_le _) fun _ _ => pure trivial))
  have hround : ∀ location type body names, Costs (nameRound r location type body names)
      (x :: o :: e :: es) (c :: rest) need 0 (Turn.IsDone (·.closed = false)) := by
    intro location type body names
    refine (declarator_variable hx (by simp [ho]) (by simp [ho])).bindFree fun d hd =>
      bindKind rfl (ifNeg (by simp [hd]) ?_)
    exact (hdeclared _ _ _ d hd).bindPure (Nat.zero_le _) fun _ _ =>
      bindRefuse (by simp [hc]) (pure rfl)
  refine bindHere fun _ => (typeSpecifier_base hw).bindFree fun _ _ =>
    bindRefuse (by simp [hx]) ((loop (lastRound (hround _ _ _))).bindPure (Nat.zero_le _) ?_)
  exact fun _ hopen => ifNeg (by simp [hopen]) (bindMark hc fun _ => pure trivial)

/-- A function definition costs what its body does. -/
theorem declaration_function {f o c b : Word} {bs : List Word} (hw : w.1.isBaseType = true)
    (hf : f.1 = .identifier) (ho : o.1 = .delimiter .leftParen) (hc : c.1 = .delimiter .rightParen)
    (hb : b.1 = .delimiter .leftBrace) (h : Costs (block r) (b :: bs) rest need 0 Always) :
    Costs (declaration r) (w :: f :: o :: c :: b :: bs) rest need 0 Always := by
  have hround : ∀ location type body names, Costs (nameRound r location type body names)
      (f :: o :: c :: b :: bs) rest need 0 (Turn.IsDone (·.closed = true)) := by
    intro location type body names
    refine (declarator_function hf ho hc).bindFree fun d hd => bindKind hb (ifPos (by simp [hd]) ?_)
    exact h.bindPure (Nat.zero_le _) fun _ _ => pure rfl
  refine bindHere fun _ => (typeSpecifier_base hw).bindFree fun _ _ =>
    bindRefuse (by simp [hf]) ((loop (lastRound (hround _ _ _))).bindPure (Nat.zero_le _) ?_)
  exact fun _ hclosed => ifPos hclosed (pure trivial)

theorem item_of_declaration (hw : w.1.startsType = true)
    (h : Costs (declaration r) (w :: ws) rest need used Always) :
    Costs (item r) (w :: ws) rest need used Always := by
  intro s hs hroom
  have hfront : s.front.kind.startsType = true := by rwa [front_kind_of_script hs]
  have hitem : item r s = declaration r s := item_of_startsType hfront
  obtain ⟨hok, hdeep⟩ := h hs hroom
  refine ⟨fun hfits => ?_, fun hlt => ?_⟩
  · rw [hitem]
    exact hok hfits
  · rw [TooDeep, hitem]
    exact hdeep hlt

/-! ## Blocks and statements -/

/-- One round of reading a block. -/
def blockRound (r : Rules) (found : List Node) : Parse (Turn (List Node)) := do
  let comments ← takeComments
  let found := comments.reverse ++ found
  match ← frontKind with
  | .delimiter .rightBrace => Pure.pure (.done found)
  | .endOfInput => fail .openBlock
  | _ =>
    let nodes ← r.statement
    Pure.pure (.again (nodes.reverse ++ found))

theorem blockRound_done (hw : w.1 = .delimiter .rightBrace) (found : List Node) :
    Costs (blockRound r found) (w :: ws) (w :: ws) 0 0 (Turn.IsDone Always) :=
  bindComments fun _ => bindKind hw (pure trivial)

theorem blockRound_again (hbrace : headKind ws ≠ .delimiter .rightBrace)
    (hend : headKind ws ≠ .endOfInput) (h : Costs r.statement ws rest need 0 Always)
    (found : List Node) :
    Costs (blockRound r found) ws rest need 0 Turn.IsAgain := by
  refine bindComments fun _ => bindKind rfl ?_
  generalize headKind ws = kind at hbrace hend ⊢
  split
  · contradiction
  · contradiction
  · exact h.bindPure (Nat.zero_le _) fun _ _ => pure trivial

theorem block_of_rounds {o c : Word} (ho : o.1 = .delimiter .leftBrace)
    (hc : c.1 = .delimiter .rightBrace)
    (h : RoundsCost (blockRound r) ws (c :: rest) need 0 Always) :
    Costs (block r) (o :: ws) rest need 0 Always :=
  bindMark ho fun _ => (loop h).bindPure (Nat.zero_le _) fun _ _ => bindMark hc fun _ =>
    pure trivial

theorem block_empty {o c : Word} (ho : o.1 = .delimiter .leftBrace)
    (hc : c.1 = .delimiter .rightBrace) : Costs (block r) (o :: c :: rest) rest 0 0 Always :=
  block_of_rounds ho hc (lastRound (blockRound_done hc))

/-- A block of one statement costs what the statement does. -/
theorem block_single {o c : Word} (ho : o.1 = .delimiter .leftBrace)
    (hc : c.1 = .delimiter .rightBrace) (hbrace : headKind ws ≠ .delimiter .rightBrace)
    (hend : headKind ws ≠ .endOfInput) (hshorter : (c :: rest).length < ws.length)
    (h : Costs r.statement ws (c :: rest) need 0 Always) :
    Costs (block r) (o :: ws) rest need 0 Always := by
  have hrounds := nextRound (blockRound_again hbrace hend h) hshorter
    (lastRound (blockRound_done hc))
  exact (block_of_rounds ho hc hrounds).cast (by omega) rfl

/-- A block as a statement takes a level. -/
theorem statement_block {o : Word} (ho : o.1 = .delimiter .leftBrace)
    (h : Costs (block r) (o :: ws) rest need 0 Always) :
    Costs (statement r) (o :: ws) rest (need + 1) 0 Always :=
  oneDeeper (bindKind ho (h.bindPure (Nat.zero_le _) fun _ _ => pure trivial))

/-- A choice takes a level, and so do its condition and its statement below it. -/
theorem statement_if {i o c : Word} {es : List Word} (hi : i.1 = .keyword .ifKw)
    (ho : o.1 = .delimiter .leftParen) (hc : c.1 = .delimiter .rightParen)
    (helse : headKind rest ≠ .keyword .elseKw)
    (htest : Costs r.expression es (c :: ws) m 0 Always)
    (hthen : Costs r.statement ws rest n 0 Always) :
    Costs (statement r) (i :: o :: es) rest (max m n + 1) 0 Always := by
  have hcondition : Costs (condition r "if" .afterIfCondition) (o :: es) ws m 0 Always :=
    bindMark ho fun _ => htest.bindPure (Nat.zero_le _) fun _ _ => bindMark hc fun _ =>
      pure trivial
  have hsingle : Costs (singleStatement r) ws rest n 0 Always :=
    bindHere fun _ => hthen.bindPure (Nat.zero_le _) fun _ _ => pure trivial
  have hif : Costs (ifStatement r) (i :: o :: es) rest (max m n) 0 Always := by
    refine bindTake fun _ _ => cast (m := max m (0 + n)) (n := 0 + 0) ?_ (by omega) rfl
    exact hcondition.bind fun _ _ => hsingle.bindPure (Nat.zero_le _) fun _ _ =>
      bindRefuse helse (pure trivial)
  exact oneDeeper (bindKind hi (hif.bindPure (Nat.zero_le _) fun _ _ => pure trivial))

end Costs

end CSurvey.Grammar
