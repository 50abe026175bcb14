import CSurvey.Proofs.Grammar.Limits
import CSurvey.Proofs.Grammar.Sieve
import CSurvey.Survey.Basic

/-! # The letters of keywords

A keyword matches in any letter case, and its token keeps the text as it was written. No node has
that text: where there are no directive lines, tokens whose keywords are written in other letters
are read to the same tree. Only the notes on skipped struct members and the messages of failures
quote what was written. -/

namespace CSurvey

/-! ## Tokens -/

/-- The same tokens but for how a keyword is written. -/
structure Token.Alike (t u : Token) : Prop where
  kind : u.kind = t.kind
  location : u.location = t.location
  text : t.kind.isKeyword = false → u.text = t.text

namespace Token.Alike

variable {t u : Token} {ts us : List Token}

theorem refl (t : Token) : t.Alike t :=
  ⟨rfl, rfl, fun _ => rfl⟩

theorem eq_of_isKeyword (h : t.Alike u) (ht : t.kind.isKeyword = false) : u = t := by
  obtain ⟨kind, text, location⟩ := t
  obtain ⟨kind', text', location'⟩ := u
  obtain ⟨rfl, rfl, htext⟩ := h
  obtain rfl := htext ht
  rfl

theorem eq_with_text (h : t.Alike u) : u = { t with text := u.text } := by
  obtain ⟨kind, text, location⟩ := t
  obtain ⟨kind', text', location'⟩ := u
  obtain ⟨rfl, rfl, -⟩ := h
  rfl

/-- Keywords have a spelling of their own. -/
theorem spelling (h : t.Alike u) : u.spelling = t.spelling := by
  cases ht : t.kind.isKeyword with
  | false => rw [h.eq_of_isKeyword ht]
  | true =>
      obtain ⟨kind, text, location⟩ := t
      cases kind with
      | keyword word =>
          rw [Token.spelling, h.kind]
          rfl
      | _ => contradiction

theorem headD (h : List.Forall₂ Token.Alike ts us) (t : Token) :
    (ts.headD t).Alike (us.headD t) := by
  cases h with
  | nil => exact refl t
  | cons h _ => exact h

theorem dropWhile {p : Token → Bool} (hp : ∀ t u, t.Alike u → p u = p t)
    (h : List.Forall₂ Token.Alike ts us) :
    List.Forall₂ Token.Alike (ts.dropWhile p) (us.dropWhile p) := by
  induction h with
  | nil => exact .nil
  | @cons t u ts us htu hrest ih =>
      rw [List.dropWhile_cons, List.dropWhile_cons, hp t u htu]
      split
      · exact ih
      · exact .cons htu hrest

theorem takeWhile {p : Token → Bool} (hp : ∀ t u, t.Alike u → p u = p t)
    (h : List.Forall₂ Token.Alike ts us) :
    List.Forall₂ Token.Alike (ts.takeWhile p) (us.takeWhile p) := by
  induction h with
  | nil => exact .nil
  | @cons t u ts us htu _ ih =>
      rw [List.takeWhile_cons, List.takeWhile_cons, hp t u htu]
      split
      · exact .cons htu ih
      · exact .nil

theorem getLast? (h : List.Forall₂ Token.Alike ts us) :
    Option.Rel Token.Alike ts.getLast? us.getLast? := by
  induction h with
  | nil => exact .none
  | cons h hrest ih =>
      cases hrest with
      | nil => exact .some h
      | cons _ _ =>
          rw [List.getLast?_cons_cons, List.getLast?_cons_cons]
          exact ih

theorem commentNodes_eq (h : List.Forall₂ Token.Alike ts us) :
    Grammar.commentNodes us = Grammar.commentNodes ts := by
  induction h with
  | nil => rfl
  | @cons t u ts us htu _ ih =>
      cases hc : t.kind.isComment with
      | false =>
          have hc' : u.kind.isComment = false := by rw [htu.kind, hc]
          simpa [Grammar.commentNodes, hc, hc'] using ih
      | true =>
          have hword : t.kind.isKeyword = false := by
            cases hk : t.kind <;> simp_all [Token.Kind.isComment, Token.Kind.isKeyword]
          rw [htu.eq_of_isKeyword hword]
          simpa [Grammar.commentNodes, hc] using ih

end Token.Alike

namespace Grammar

open Node (Kind)

/-! ## States -/

/-- The same states but for how the keywords to come are written, and for the notes. No directive
line is to come. -/
structure State.Alike (s s' : State) : Prop where
  rest : List.Forall₂ Token.Alike s.rest s'.rest
  stop : s'.stop = s.stop
  limit : s'.limit = s.limit
  depth : s'.depth = s.depth
  onLine : s'.onLine = s.onLine
  comments : s'.comments = s.comments
  plain : ∀ t ∈ s.rest, t.kind.isDirective = false

namespace State.Alike

variable {s s' : State}

theorem isPassed (h : s.Alike s') (t u : Token) (htu : t.Alike u) :
    s'.isPassed u = s.isPassed t := by
  rw [State.isPassed, State.isPassed, htu.kind, h.onLine]

theorem isPassed_self (h : s.Alike s') : s'.isPassed = s.isPassed :=
  funext fun t => h.isPassed t t (.refl t)

theorem passes (h : s.Alike s') (t u : Token) (htu : t.Alike u) :
    s.isPassed u = s.isPassed t := by
  rw [← h.isPassed t u htu, h.isPassed_self]

theorem upcoming (h : s.Alike s') : List.Forall₂ Token.Alike s.upcoming s'.upcoming := by
  rw [State.upcoming, State.upcoming, h.isPassed_self]
  exact Token.Alike.dropWhile h.passes h.rest

theorem front (h : s.Alike s') : s.front.Alike s'.front := by
  rw [State.front, State.front, h.stop]
  exact Token.Alike.headD h.upcoming _

theorem second (h : s.Alike s') : s.second.Alike s'.second := by
  rw [State.second, State.second, h.stop, h.isPassed_self]
  exact Token.Alike.headD (Token.Alike.dropWhile h.passes (List.forall₂_drop 1 h.upcoming)) _

theorem passTrivia (h : s.Alike s') : s.passTrivia.Alike s'.passTrivia where
  rest := h.upcoming
  stop := h.stop
  limit := h.limit
  depth := h.depth
  onLine := h.onLine
  comments := by
    have hpassed := Token.Alike.takeWhile h.passes h.rest
    show s'.comments ++ commentNodes (s'.rest.takeWhile s'.isPassed) =
      s.comments ++ commentNodes (s.rest.takeWhile s.isPassed)
    rw [h.comments, h.isPassed_self, Token.Alike.commentNodes_eq hpassed]
  plain t ht := h.plain t ((List.dropWhile_suffix s.isPassed).mem ht)

theorem dropFront (h : s.Alike s') : s.dropFront.Alike s'.dropFront where
  rest := List.forall₂_drop 1 h.upcoming
  stop := h.stop
  limit := h.limit
  depth := h.depth
  onLine := h.onLine
  comments := h.passTrivia.comments
  plain t ht := h.passTrivia.plain t (List.mem_of_mem_drop ht)

theorem atDepth (h : s.Alike s') (depth : Nat) :
    State.Alike { s with depth } { s' with depth } :=
  ⟨h.rest, h.stop, h.limit, rfl, h.onLine, h.comments, h.plain⟩

theorem isDirective_front (h : s.Alike s') : s.front.kind.isDirective = false := by
  rw [State.front]
  cases hup : s.upcoming with
  | nil => rfl
  | cons t ts => exact h.passTrivia.plain t (by simp [State.passTrivia, hup])

end State.Alike

/-! ## Readers -/

/-- From a token of such a kind, where the first reader succeeds so does the second with its
keywords written otherwise, and comes to a related result. -/
def Imitates {α : Type} (P : Token.Kind → Prop) (R : α → α → Prop) (p q : Parse α) : Prop :=
  ∀ ⦃s s' t : State⦄ ⦃a : α⦄, s.Alike s' → P s.front.kind → p s = .ok a t →
    ∃ b t', q s' = .ok b t' ∧ R a b ∧ t.Alike t'

/-- The reader comes to the same however the keywords are written. -/
abbrev Steady {α : Type} (P : Token.Kind → Prop) (p : Parse α) : Prop :=
  Imitates P Eq p p

namespace Imitates

variable {α β : Type} {P : Token.Kind → Prop} {R : α → α → Prop} {S : β → β → Prop}
  {p q : Parse α}

theorem pure {a b : α} (h : R a b) : Imitates P R (pure a) (pure b) := by
  intro s s' t a' hs _ ha
  obtain ⟨rfl, rfl⟩ := pure_eq_ok.mp ha
  exact ⟨b, s', rfl, h, hs⟩

theorem weaken {Q : Token.Kind → Prop} (hp : Imitates Q R p q) (h : ∀ k, P k → Q k) :
    Imitates P R p q :=
  fun _ _ _ _ hs hk ha => hp hs (h _ hk) ha

theorem anywhere (hp : Imitates Always R p q) : Imitates P R p q :=
  hp.weaken fun _ _ => trivial

theorem mono {R' : α → α → Prop} (hp : Imitates P R p q) (h : ∀ a b, R a b → R' a b) :
    Imitates P R' p q := by
  intro s s' t a hs hk ha
  obtain ⟨b, t', hb, hab, ht⟩ := hp hs hk ha
  exact ⟨b, t', hb, h a b hab, ht⟩

theorem bind {f g : α → Parse β} (hp : Imitates P R p q)
    (hf : ∀ a b, R a b → Imitates Always S (f a) (g b)) : Imitates P S (p >>= f) (q >>= g) := by
  intro s s' t c hs hk hc
  obtain ⟨a, u, ha, hc⟩ := bind_eq_ok.mp hc
  obtain ⟨b, u', hb, hab, hu⟩ := hp hs hk ha
  obtain ⟨d, t', hd, hcd, ht⟩ := hf a b hab hu trivial hc
  exact ⟨d, t', bind_eq_ok.mpr ⟨b, u', hb, hd⟩, hcd, ht⟩

theorem bindSame {f g : α → Parse β} (hp : Steady P p)
    (hf : ∀ a, Imitates Always S (f a) (g a)) : Imitates P S (p >>= f) (p >>= g) := by
  refine bind hp fun a b hab => ?_
  obtain rfl := hab
  exact hf a

/-- A look at the state leaves it where it is. -/
theorem bindLook {g : State → α} {f f' : α → Parse β}
    (hf : ∀ s s' : State, s.Alike s' → P s.front.kind →
      Imitates (fun k => P k ∧ k = s.front.kind) S (f (g s)) (f' (g s'))) :
    Imitates P S ((fun s => .ok (g s) s) >>= f) ((fun s => .ok (g s) s) >>= f') :=
  fun s s' _ _ hs hk hb => hf s s' hs hk hs ⟨hk, rfl⟩ hb

theorem bindHere {f : Position → Parse β} (hf : ∀ a, Imitates P S (f a) (f a)) :
    Imitates P S (here >>= f) (here >>= f) := by
  refine bindLook fun s s' hs _ => ?_
  rw [hs.front.location]
  exact (hf _).weaken fun _ hk => hk.1

theorem bindKind {f g : Token.Kind → Parse β}
    (hf : ∀ kind, Imitates (fun k => P k ∧ k = kind) S (f kind) (g kind)) :
    Imitates P S (frontKind >>= f) (frontKind >>= g) := by
  refine bindLook fun s s' hs _ => ?_
  rw [hs.front.kind]
  exact hf _

theorem bindSecond {f : Token.Kind → Parse β} (hf : ∀ kind, Imitates P S (f kind) (f kind)) :
    Imitates P S (secondKind >>= f) (secondKind >>= f) := by
  refine bindLook fun s s' hs _ => ?_
  rw [hs.second.kind]
  exact (hf _).weaken fun _ hk => hk.1

theorem bindFront {f g : Token → Parse β}
    (hf : ∀ t u, t.Alike u → Imitates (fun k => P k ∧ k = t.kind) S (f t) (g u)) :
    Imitates P S (front >>= f) (front >>= g) :=
  bindLook fun _ _ hs _ => hf _ _ hs.front

theorem bindTake {f g : Token → Parse β}
    (hf : ∀ t u, t.Alike u → P t.kind → Imitates Always S (f t) (g u)) :
    Imitates P S (takeFront >>= f) (takeFront >>= g) :=
  fun _ _ _ _ hs hk hb => hf _ _ hs.front hk hs.dropFront trivial hb

/-- Of the token taken the text does not matter. -/
theorem bindPlace {f : Token → Parse β} (hplace : ∀ t text, f { t with text } = f t)
    (hf : ∀ t, Imitates Always S (f t) (f t)) :
    Imitates P S (takeFront >>= f) (takeFront >>= f) := by
  refine bindTake fun t u htu _ => ?_
  have hsame : f u = f t := htu.eq_with_text ▸ hplace t u.text
  rw [hsame]
  exact hf t

/-- The token taken is no keyword. -/
theorem bindWord {f g : Token → Parse β} (hP : ∀ k, P k → k.isKeyword = false)
    (hf : ∀ t, P t.kind → Imitates Always S (f t) (g t)) :
    Imitates P S (takeFront >>= f) (takeFront >>= g) := by
  refine bindTake fun t u htu ht => ?_
  rw [htu.eq_of_isKeyword (hP _ ht)]
  exact hf t ht

theorem stop {f g : State → Failure} :
    Imitates P R (fun s => .error (f s) s) fun s => .error (g s) s := by
  intro s s' t a _ _ ha
  simp at ha

/-- There is no directive line to read. -/
theorem directive (h : ∀ k, P k → k.isDirective = true) : Imitates P R p q := by
  intro s s' t a hs hk _
  have hnone := hs.isDirective_front
  rw [h _ hk] at hnone
  contradiction

theorem ite {c : Prop} [Decidable c] {p' q' : Parse α} (hp : c → Imitates P R p q)
    (hp' : ¬c → Imitates P R p' q') :
    Imitates P R (if c then p else p') (if c then q else q') := by
  split
  · exact hp ‹c›
  · exact hp' ‹¬c›

theorem oneDeeper (hp : Imitates P R p q) : Imitates P R (oneDeeper p) (oneDeeper q) := by
  intro s s' t a hs hk ha
  obtain ⟨hroom, u, hu, rfl⟩ := oneDeeper_eq_ok.mp ha
  obtain ⟨b, u', hb, hab, hsame⟩ := hp (hs.atDepth (s.depth + 1)) hk hu
  rw [← hs.depth] at hb
  refine ⟨b, _, oneDeeper_eq_ok.mpr ⟨by rwa [hs.depth, hs.limit], u', hb, rfl⟩, hab, ?_⟩
  rw [hs.depth]
  exact hsame.atDepth _

theorem bindDeeper {f g : Unit → Parse β} (hf : Imitates P S (f ()) (g ())) :
    Imitates P S (goDeeper >>= f) (goDeeper >>= g) := by
  intro s s' t b hs hk hb
  obtain ⟨_, u, hu, hb⟩ := bind_eq_ok.mp hb
  unfold goDeeper at hu
  split at hu
  · rename_i hroom
    obtain ⟨-, rfl⟩ := EStateM.Result.ok.inj hu
    obtain ⟨c, t', hc, hbc, ht⟩ := hf (hs.atDepth (s.depth + 1)) hk hb
    refine ⟨c, t', bind_eq_ok.mpr ⟨(), _, goDeeper_apply (by rwa [hs.depth, hs.limit]), ?_⟩,
      hbc, ht⟩
    rw [State.deeper, hs.depth]
    exact hc
  · simp at hu

theorem takeComments : Steady P takeComments := by
  intro s s' t a hs _ ha
  obtain ⟨rfl, rfl⟩ := EStateM.Result.ok.inj ha
  have hpass := hs.passTrivia
  exact ⟨_, _, rfl, hpass.comments.symm, hpass.rest, hpass.stop, hpass.limit, hpass.depth,
    hpass.onLine, rfl, hpass.plain⟩

/-- Both runs go through as many rounds. -/
theorem rounds {round round' : α → Parse (Turn α)}
    (hround : ∀ a b, R a b → Imitates Always (Sieve.BothTurn R) (round a) (round' b))
    {fuel fuel' : List Token} (hfuel : fuel.length = fuel'.length) {a b : α} (hab : R a b) :
    Imitates P R (rounds round fuel a) (rounds round' fuel' b) := by
  induction fuel generalizing fuel' a b P with
  | nil =>
      obtain rfl := List.length_eq_zero_iff.mp hfuel.symm
      refine bind (hround a b hab).anywhere fun _ _ hturn => ?_
      cases hturn with
      | done h => exact pure h
      | again _ => exact stop
  | cons _ fuel ih =>
      cases fuel' with
      | nil => contradiction
      | cons _ fuel' =>
          refine bind (hround a b hab).anywhere fun _ _ hturn => ?_
          cases hturn with
          | done h => exact pure h
          | again h => exact ih (Nat.succ.inj hfuel) h

theorem loop {round round' : α → Parse (Turn α)}
    (hround : ∀ a b, R a b → Imitates Always (Sieve.BothTurn R) (round a) (round' b)) {a b : α}
    (hab : R a b) : Imitates P R (loop round a) (loop round' b) :=
  fun _ _ _ _ hs hk ha => rounds hround hs.rest.length_eq hab hs hk ha

theorem loopSame {round : α → Parse (Turn α)} (hround : ∀ a, Steady Always (round a)) {a : α} :
    Steady P (Grammar.loop round a) := by
  refine loop (fun b c hbc => ?_) rfl
  obtain rfl := hbc
  refine (hround b).mono fun turn turn' hturn => ?_
  obtain rfl := hturn
  cases turn with
  | again c => exact .again rfl
  | done c => exact .done rfl

theorem accept (k : Token.Kind) : Steady P (accept k) :=
  bindKind fun _ => ite (fun _ => bindPlace (fun _ _ => rfl) fun _ => pure rfl) fun _ => pure rfl

theorem bindRequire {k : Token.Kind} {place place' : Place} {f g : Token → Parse β}
    (hf : ∀ t u, t.Alike u → t.kind = k → Imitates Always S (f t) (g u)) :
    Imitates P S (require k place >>= f) (require k place' >>= g) := by
  refine bind (R := fun t u => t.Alike u ∧ t.kind = k) (bindKind fun kind => ite (fun hkind => ?_)
    fun _ => stop) fun t u htu => hf t u htu.1 htu.2
  intro s s' t a hs hk ha
  obtain ⟨rfl, rfl⟩ := EStateM.Result.ok.inj ha
  exact ⟨_, _, rfl, ⟨hs.front, hk.2.trans hkind⟩, hs.dropFront⟩

theorem bindMark {mark : Token.Delimiter} {place place' : Place} {f g : Token → Parse β}
    (hf : ∀ t, Imitates Always S (f t) (g t)) :
    Imitates P S (requireMark mark place >>= f) (requireMark mark place' >>= g) := by
  refine bindRequire fun t u htu ht => ?_
  rw [htu.eq_of_isKeyword (by rw [ht]; rfl)]
  exact hf t

theorem bindName {place place' : Place} {f g : Token → Parse β}
    (hf : ∀ t, Imitates Always S (f t) (g t)) :
    Imitates P S (require .identifier place >>= f) (require .identifier place' >>= g) := by
  refine bindRequire fun t u htu ht => ?_
  rw [htu.eq_of_isKeyword (by rw [ht]; rfl)]
  exact hf t

theorem commaSeparated (hp : Steady Always p) : Steady P (commaSeparated p) :=
  bindSame (loopSame fun _ => bindSame hp fun _ => bindSame (accept _) fun _ =>
    ite (fun _ => pure rfl) fun _ => pure rfl) fun _ => pure rfl

end Imitates

/-- Rules that come to the same however the keywords are written. -/
structure Rules.Steady (r : Rules) : Prop where
  expression : Grammar.Steady Always r.expression
  conditional : Grammar.Steady Always r.conditional
  unary : Grammar.Steady Always r.unary
  initializer : Grammar.Steady Always r.initializer
  structSpecifier : Grammar.Steady Always r.structSpecifier
  statement : Grammar.Steady Always r.statement

namespace Imitates

variable {P : Token.Kind → Prop} {r : Rules}

theorem isKeyword_of_eq {k : Token.Kind} (hk : k.isKeyword = false) :
    ∀ k', P k' ∧ k' = k → k'.isKeyword = false := by
  rintro _ ⟨-, rfl⟩
  exact hk

/-! ## Types -/

theorem typeModifiers : Steady P typeModifiers := by
  refine bindSame (loopSame fun words => bindKind fun kind => ite (fun _ => ?_) fun _ => pure rfl)
    fun _ => pure rfl
  exact bindTake fun t u htu _ => pure (by rw [htu.spelling])

theorem typeSpecifier (h : r.Steady) : Steady P (typeSpecifier r) := by
  refine bindSame typeModifiers fun words => bindKind fun kind => ite (fun _ => ?_) fun _ =>
    ite (fun _ => ?_) fun _ => ite (fun _ => stop) fun _ => pure rfl
  · exact bindTake fun t u htu _ => pure (by rw [htu.spelling])
  · exact bindSame h.structSpecifier.anywhere fun _ => pure rfl

theorem typeName (h : r.Steady) : Steady P (typeName r) :=
  bindSame (typeSpecifier h) fun _ => loopSame fun _ => bindSame (accept _) fun _ =>
    ite (fun _ => pure rfl) fun _ => pure rfl

/-! ## Expressions -/

theorem moreStrings (text : String) : Steady P (moreStrings text) := by
  refine loopSame fun text => bindKind fun kind => ite (fun hstring => ?_) fun _ => pure rfl
  exact bindWord (isKeyword_of_eq (by rw [hstring]; rfl)) fun _ _ => pure rfl

/-- No keyword opens a primary. -/
theorem primary (h : r.Steady) : Steady P (primary r) := by
  refine bindFront fun t u htu => ?_
  cases hword : t.kind.isKeyword with
  | true =>
      obtain ⟨word, hkind⟩ : ∃ word, t.kind = .keyword word := by
        cases hk : t.kind <;> simp_all [Token.Kind.isKeyword]
      rw [htu.kind, hkind]
      exact stop
  | false =>
      rw [htu.eq_of_isKeyword hword]
      split
      · refine bindPlace (fun _ _ => rfl) fun _ => ?_
        split
        · exact pure rfl
        · exact stop
      · exact bindPlace (fun _ _ => rfl) fun _ => bindSame (moreStrings _) fun _ => pure rfl
      · exact bindPlace (fun _ _ => rfl) fun _ => pure rfl
      · exact bindPlace (fun _ _ => rfl) fun _ => pure rfl
      · exact bindPlace (fun _ _ => rfl) fun _ => bindSame h.expression fun _ =>
          bindMark fun _ => pure rfl
      · exact stop

theorem arguments (h : r.Steady) : Steady P (arguments r) :=
  bindKind fun _ => ite (fun _ => pure rfl) fun _ => commaSeparated h.expression

theorem memberOf (hP : ∀ k, P k → k.isKeyword = false) (kind : Kind) (operand : Node) :
    Steady P (memberOf kind operand) :=
  bindWord hP fun _ _ => bindName fun _ => pure rfl

theorem continued (h : r.Steady) (hP : ∀ k, P k → continuesOperand k = true) (operand : Node) :
    Steady P (continued r operand) := by
  refine bindKind fun kind => ?_
  split
  · exact bindPlace (fun _ _ => rfl) fun _ => bindSame h.expression fun _ => bindMark fun _ =>
      pure rfl
  · exact bindPlace (fun _ _ => rfl) fun _ => bindSame (arguments h) fun _ => bindMark fun _ =>
      pure rfl
  · exact memberOf (isKeyword_of_eq rfl) _ _
  · exact memberOf (isKeyword_of_eq rfl) _ _
  · refine bindWord (fun k hk => ?_) fun _ _ => pure rfl
    have hcontinues := hP k hk.1
    cases k <;> first | rfl | contradiction

theorem operand (h : r.Steady) : Steady P (operand r) :=
  bindSame (primary h) fun _ => loopSame fun operand => bindKind fun kind =>
    ite (fun hkind => bindDeeper (bindSame
      (continued h (by rintro _ ⟨-, rfl⟩; exact hkind) operand) fun _ => pure rfl))
      fun _ => pure rfl

theorem bindTypeInParens {α : Type} {R : α → α → Prop} {f : Bool → Parse α}
    (hf : ∀ b, Imitates P R (f b) (f b)) :
    Imitates P R (typeInParens >>= f) (typeInParens >>= f) := by
  have hlook : typeInParens = fun s => .ok
      (s.front.kind = .delimiter .leftParen && s.second.kind.startsType) s := rfl
  rw [hlook]
  refine bindLook fun s s' hs _ => ?_
  rw [hs.front.kind, hs.second.kind]
  exact (hf _).weaken fun _ hk => hk.1

theorem sizeOf (h : r.Steady) : Steady P (sizeOf r) := by
  refine bindPlace (fun _ _ => rfl) fun keyword => bindTypeInParens fun _ => ite (fun _ => ?_)
    fun _ => ?_
  · exact bindPlace (fun _ _ => rfl) fun _ => bindSame (typeName h) fun _ => bindMark fun _ =>
      pure rfl
  · exact bindSame (oneDeeper h.unary) fun _ => pure rfl

theorem cast (h : r.Steady) : Steady P (cast r) :=
  bindPlace (fun _ _ => rfl) fun _ => bindSame (typeName h) fun _ => bindMark fun _ =>
    bindSame (oneDeeper h.unary) fun _ => pure rfl

theorem unary (h : r.Steady) : Steady P (unary r) := by
  refine bindKind fun kind => ?_
  split
  · refine ite (fun _ => ?_) fun _ => ite (fun _ => ?_) fun _ => operand h
    · exact bindWord (isKeyword_of_eq rfl) fun _ _ => bindSame (oneDeeper h.unary) fun _ =>
        pure rfl
    · exact bindWord (isKeyword_of_eq rfl) fun _ _ => bindSame (operand h) fun _ => pure rfl
  · exact sizeOf h
  · exact bindTypeInParens fun _ => ite (fun _ => cast h) fun _ => operand h

theorem chain {p : Parse Node} (hp : Steady Always p) (level : Nat) :
    Steady P (chain level p) := by
  refine bindSame hp.anywhere fun _ => loopSame fun left => bindKind fun kind =>
    ite (fun hkind => ?_) fun _ => pure rfl
  refine bindDeeper (bindWord (fun k hk => ?_) fun _ _ => bindSame hp fun _ => pure rfl)
  obtain ⟨-, rfl⟩ := hk
  cases k <;> first | rfl | contradiction

theorem binary (h : r.Steady) (level : Nat) : Steady P (binary r level) := by
  refine anywhere ?_
  induction level with
  | zero => exact unary h
  | succ level ih => exact chain ih (level + 1)

theorem conditional (h : r.Steady) : Steady P (conditional r) :=
  bindSame (binary h 10) fun _ => bindKind fun _ => ite
    (fun _ => bindPlace (fun _ _ => rfl) fun _ => bindSame h.expression fun _ => bindMark fun _ =>
      bindSame (oneDeeper h.conditional) fun _ => pure rfl)
    fun _ => pure rfl

theorem expression (h : r.Steady) : Steady P (expression r) := by
  refine oneDeeper (bindSame (conditional h) fun _ => bindKind fun kind => ite (fun hkind => ?_)
    fun _ => pure rfl)
  refine bindWord (fun k hk => ?_) fun _ _ => bindSame h.expression fun _ => pure rfl
  obtain ⟨-, rfl⟩ := hk
  cases k <;> first | rfl | contradiction

/-! ## Declarators -/

theorem skipQualifiers : Steady P skipQualifiers := by
  refine loopSame fun _ => bindKind fun kind => ?_
  split
  · exact bindPlace (fun _ _ => rfl) fun _ => pure rfl
  · exact bindPlace (fun _ _ => rfl) fun _ => pure rfl
  · exact pure rfl

theorem pointers : Steady P pointers :=
  loopSame fun _ => bindSame (accept _) fun _ => ite
    (fun _ => bindSame skipQualifiers fun _ => pure rfl) fun _ => pure rfl

theorem arraySize (h : r.Steady) : Steady P (arraySize r) :=
  bindPlace (fun _ _ => rfl) fun _ => bindSame (accept _) fun _ => ite (fun _ => pure rfl) fun _ =>
    bindSame h.expression fun _ => bindMark fun _ => pure rfl

theorem arraySizes (h : r.Steady) : Steady P (arraySizes r) :=
  bindSame (loopSame fun _ => bindKind fun _ => ite
    (fun _ => bindSame (arraySize h) fun _ => pure rfl) fun _ => pure rfl) fun _ => pure rfl

theorem parameterSizes (h : r.Steady) (type : String) : Steady P (parameterSizes r type) := by
  refine loopSame fun type => bindSame (accept _) fun _ => ite (fun _ => bindKind fun _ => ?_)
    fun _ => pure rfl
  exact ite (fun _ => bindSame (pure rfl) fun _ => bindMark fun _ => pure rfl) fun _ =>
    bindSame h.expression.anywhere fun _ => bindSame (pure rfl) fun _ => bindMark fun _ => pure rfl

theorem parameterName : Steady P parameterName := by
  refine bindKind fun kind => ite (fun hname => ?_) fun _ => pure rfl
  exact bindWord (isKeyword_of_eq (by rw [hname]; rfl)) fun _ _ => pure rfl

theorem parameter (h : r.Steady) : Steady P (parameter r) :=
  bindHere fun _ => bindKind fun _ => ite
    (fun _ => bindSame (typeName h) fun _ => bindSame parameterName fun _ =>
      bindSame (parameterSizes h _) fun _ => pure rfl)
    fun _ => stop

theorem ellipsis : Steady P ellipsis :=
  bindHere fun _ => bindMark fun _ => bindMark fun _ => bindMark fun _ => pure rfl

theorem parameters (h : r.Steady) : Steady P (parameters r) :=
  bindSame (loopSame fun _ => bindKind fun _ => ite
    (fun _ => bindSame ellipsis fun _ => pure rfl)
    fun _ => bindSame (parameter h) fun _ => bindSame (accept _) fun _ =>
      ite (fun _ => pure rfl) fun _ => pure rfl)
    fun _ => pure rfl

theorem parameterList (h : r.Steady) : Steady P (parameterList r) :=
  bindKind fun _ => bindSecond fun _ => ite (fun _ => pure rfl) fun _ => ite
    (fun _ => bindPlace (fun _ _ => rfl) fun _ => pure rfl) fun _ => parameters h

theorem declarator (h : r.Steady) : Steady P (declarator r) := by
  refine bindSame pointers fun _ => bindKind fun kind => ite (fun hname => ?_) fun _ => stop
  refine bindWord (isKeyword_of_eq (by rw [hname]; rfl)) fun _ _ => bindSame (accept _) fun _ =>
    ite (fun _ => ?_) fun _ => bindSame (arraySizes h) fun _ => pure rfl
  exact bindSame (parameterList h) fun _ => bindMark fun _ => pure rfl

/-! ## Struct bodies -/

theorem structMembers (h : r.Steady) : Steady P (structMembers r) :=
  bindHere fun _ => bindSame (typeSpecifier h) fun _ =>
    bindSame (commaSeparated (declarator h)) fun _ => bindMark fun _ => pure rfl

/-- What is passed over may be written otherwise, and so the note of it. -/
theorem reportPassed (tag : String) (passed passed' : List Token) :
    Imitates P (fun _ _ => True) (reportPassed tag passed) (reportPassed tag passed') := by
  intro s s' t a hs _ ha
  have hnoted : ∀ passed : List Token, ∃ warnings, Grammar.reportPassed tag passed =
      fun s => .ok () { s with warnings := s.warnings ++ warnings } := by
    intro passed
    unfold Grammar.reportPassed
    split
    · exact ⟨[], funext fun s => by simp [pure_apply]⟩
    · exact ⟨[_], rfl⟩
  obtain ⟨_, hfirst⟩ := hnoted passed
  obtain ⟨_, hsecond⟩ := hnoted passed'
  rw [hfirst] at ha
  obtain ⟨-, rfl⟩ := EStateM.Result.ok.inj ha
  exact ⟨(), _, congrFun hsecond s', trivial, hs.rest, hs.stop, hs.limit, hs.depth, hs.onLine,
    hs.comments, hs.plain⟩

theorem passBraces {passed passed' : List Token} (h : List.Forall₂ Token.Alike passed passed') :
    Imitates P (List.Forall₂ Token.Alike) (passBraces passed) (passBraces passed') := by
  refine bind (R := fun a b => b.1 = a.1 ∧ List.Forall₂ Token.Alike a.2 b.2)
    (loop ?_ ⟨rfl, h⟩) fun _ _ hab => pure hab.2
  rintro ⟨depth, passed⟩ ⟨depth', passed'⟩ ⟨hdepth, hpassed⟩
  obtain rfl : depth' = depth := hdepth
  refine bindTake fun t u htu _ => ?_
  have hmore := List.Forall₂.cons htu hpassed
  rw [htu.kind]
  split
  · exact pure (.done ⟨rfl, hpassed⟩)
  · exact pure (.again ⟨rfl, hmore⟩)
  · exact ite (fun _ => pure (.done ⟨rfl, hmore⟩)) fun _ => pure (.again ⟨rfl, hmore⟩)
  · exact ite (fun _ => pure (.done ⟨rfl, hmore⟩)) fun _ => pure (.again ⟨rfl, hmore⟩)

/-- The members are the same, whatever is passed over. -/
theorem structBody (h : r.Steady) (tag : String) : Steady P (structBody r tag) := by
  refine bind (R := fun body body' => body'.members = body.members ∧
    List.Forall₂ Token.Alike body.passed body'.passed) (loop ?_ ⟨rfl, .nil⟩)
    fun body body' hbody => bind (reportPassed tag _ _) fun _ _ _ => pure (by rw [hbody.1])
  rintro ⟨members, passed⟩ ⟨members', passed'⟩ ⟨hmembers, hpassed⟩
  obtain rfl : members' = members := hmembers
  refine bindKind fun kind => ite (fun _ => pure (.done ⟨rfl, hpassed⟩)) fun _ =>
    ite (fun _ => stop) fun _ => ite (fun _ => ?_) fun _ => ite (fun _ => ?_) fun _ => ?_
  · exact bind (reportPassed tag _ _) fun _ _ _ => bindSame (structMembers h) fun _ =>
      pure (.again ⟨rfl, .nil⟩)
  · exact bind (passBraces hpassed) fun _ _ hmore => pure (.again ⟨rfl, hmore⟩)
  · exact bindTake fun t u htu _ => pure (.again ⟨rfl, .cons htu hpassed⟩)

theorem structSpecifier (h : r.Steady) : Steady P (structSpecifier r) := by
  refine bindPlace (fun _ _ => rfl) fun _ => bindKind fun kind => ite (fun hname => ?_)
    fun _ => stop
  refine bindWord (isKeyword_of_eq (by rw [hname]; rfl)) fun _ _ => bindSame (accept _) fun _ =>
    ite (fun _ => ?_) fun _ => pure rfl
  exact bindSame (structBody h _) fun _ => bindMark fun _ => pure rfl

/-! ## Declarations -/

theorem initializer (h : r.Steady) : Steady P (initializer r) := by
  refine bindKind fun _ => ite (fun _ => bindPlace (fun _ _ => rfl) fun _ => bindSame
    (loopSame fun _ => ?_) fun _ => bindMark fun _ => pure rfl) fun _ => h.expression.anywhere
  exact bindKind fun _ => ite (fun _ => pure rfl) fun _ =>
    bindSame (oneDeeper h.initializer.anywhere) fun _ => bindSame (accept _) fun _ =>
      ite (fun _ => pure rfl) fun _ => pure rfl

theorem block (h : r.Steady) : Steady P (block r) := by
  refine bindMark fun _ => bindSame (loopSame fun _ => bindSame takeComments fun _ =>
    bindKind fun _ => ?_) fun _ => bindMark fun _ => pure rfl
  split
  · exact pure rfl
  · exact stop
  · exact bindSame h.statement.anywhere fun _ => pure rfl

theorem declared (h : r.Steady) (location : Position) (type : String) (d : Declarator)
    (body : Option Node) : Steady P (declared r location type d body) :=
  ite (fun _ => pure rfl) fun _ => bindSame (accept _) fun _ => ite
    (fun _ => bindSame (initializer h) fun _ => pure rfl) fun _ => pure rfl

theorem declaredNames (h : r.Steady) (location : Position) (type : TypeSpecifier)
    (body : Option Node) : Steady P (declaredNames r location type body) :=
  loopSame fun _ => bindSame (declarator h) fun _ => bindKind fun _ => ite
    (fun _ => bindSame (block h) fun _ => pure rfl)
    fun _ => bindSame (declared h ..) fun _ => bindSame (accept _) fun _ =>
      ite (fun _ => pure rfl) fun _ => pure rfl

theorem declaration (h : r.Steady) : Steady P (declaration r) :=
  bindHere fun _ => bindSame (typeSpecifier h) fun _ => bindSame (accept _) fun _ => ite
    (fun _ => pure rfl)
    fun _ => bindSame (declaredNames h ..) fun _ => ite (fun _ => pure rfl)
      fun _ => bindMark fun _ => pure rfl

/-! ## Statements -/

theorem singleStatement (h : r.Steady) : Steady P (singleStatement r) :=
  bindHere fun _ => bindSame h.statement.anywhere fun _ => pure rfl

theorem condition (h : r.Steady) (word : String) (place : Place) :
    Steady P (condition r word place) :=
  bindMark fun _ => bindSame h.expression fun _ => bindMark fun _ => pure rfl

theorem ifStatement (h : r.Steady) : Steady P (ifStatement r) :=
  bindPlace (fun _ _ => rfl) fun _ => bindSame (condition h _ _) fun _ =>
    bindSame (singleStatement h) fun _ => bindSame (accept _) fun _ => ite
      (fun _ => bindSame (singleStatement h) fun _ => pure rfl) fun _ => pure rfl

theorem forStart (h : r.Steady) : Steady P (forStart r) := by
  refine bindHere fun _ => bindSame (accept _) fun _ => ite (fun _ => pure rfl) fun _ =>
    bindKind fun _ => ite (fun _ => bindSame (declaration h) fun nodes => ?_) fun _ => ?_
  · split
    · exact pure rfl
    · exact pure rfl
  · exact bindSame h.expression.anywhere fun _ => bindMark fun _ => pure rfl

theorem optionalBefore (h : r.Steady) (mark : Token.Delimiter) :
    Steady P (optionalBefore r mark) :=
  bindKind fun _ => ite (fun _ => bindHere fun _ => pure rfl) fun _ => h.expression.anywhere

theorem forStatement (h : r.Steady) : Steady P (forStatement r) :=
  bindPlace (fun _ _ => rfl) fun _ => bindMark fun _ => bindSame (forStart h) fun _ =>
    bindSame (optionalBefore h _) fun _ => bindMark fun _ => bindSame (optionalBefore h _) fun _ =>
      bindMark fun _ => bindSame (singleStatement h) fun _ => pure rfl

theorem whileStatement (h : r.Steady) : Steady P (whileStatement r) :=
  bindPlace (fun _ _ => rfl) fun _ => bindSame (condition h _ _) fun _ =>
    bindSame (singleStatement h) fun _ => pure rfl

theorem doWhileStatement (h : r.Steady) : Steady P (doWhileStatement r) :=
  bindPlace (fun _ _ => rfl) fun _ => bindSame (singleStatement h) fun _ =>
    bindRequire fun _ _ _ _ => bindSame (condition h _ _) fun _ => bindMark fun _ => pure rfl

theorem switchStatement (h : r.Steady) : Steady P (switchStatement r) :=
  bindPlace (fun _ _ => rfl) fun _ => bindSame (condition h _ _) fun _ =>
    bindSame (singleStatement h) fun _ => pure rfl

theorem caseLabel (h : r.Steady) : Steady P (caseLabel r) :=
  bindPlace (fun _ _ => rfl) fun _ => bindSame h.expression fun _ => bindMark fun _ => pure rfl

theorem defaultLabel : Steady P defaultLabel :=
  bindPlace (fun _ _ => rfl) fun _ => bindMark fun _ => pure rfl

theorem label (hP : ∀ k, P k → k.isKeyword = false) : Steady P label :=
  bindWord hP fun _ _ => bindMark fun _ => pure rfl

theorem returnStatement (h : r.Steady) : Steady P (returnStatement r) :=
  bindPlace (fun _ _ => rfl) fun _ => bindKind fun _ => ite
    (fun _ => bindMark fun _ => pure rfl)
    fun _ => bindSame h.expression.anywhere fun _ => bindMark fun _ => pure rfl

/-- The keyword as it is written stands in the message of the semicolon that is missing. -/
theorem jump (kind : Kind) (word : String) : Steady P (jump kind word) :=
  bindTake fun _ _ htu _ => bindMark fun _ => pure (by rw [htu.location])

theorem gotoStatement : Steady P gotoStatement :=
  bindPlace (fun _ _ => rfl) fun _ => bindName fun _ => bindMark fun _ => pure rfl

theorem expressionStatement (h : r.Steady) : Steady P (expressionStatement r) :=
  bindHere fun _ => bindSame h.expression.anywhere fun _ => bindMark fun _ => pure rfl

theorem one {p : Parse Node} (hp : Steady P p) : Steady P (one p) :=
  bindSame hp fun _ => pure rfl

/-- A name that stands before a colon is no keyword. -/
theorem bindLabelAhead {α : Type} {R : α → α → Prop} {f : Bool → Parse α}
    (hf : ∀ b, Imitates (fun k => P k ∧ (b = true → k = .identifier)) R (f b) (f b)) :
    Imitates P R (labelAhead >>= f) (labelAhead >>= f) := by
  have hlook : labelAhead = fun s => .ok
      (s.front.kind = .identifier && s.second.kind = .delimiter .colon) s := rfl
  rw [hlook]
  refine bindLook fun s s' hs _ => ?_
  rw [hs.front.kind, hs.second.kind]
  refine (hf _).weaken fun k hk => ⟨hk.1, fun hahead => ?_⟩
  simp only [Bool.and_eq_true, decide_eq_true_eq] at hahead
  exact hk.2.trans hahead.1

theorem openStatement (h : r.Steady) (kind : Token.Kind) : Steady P (openStatement r kind) := by
  refine bindLabelAhead fun b => ite (fun hahead => one (label fun k hk => ?_)) fun _ =>
    ite (fun _ => declaration h) fun _ => ite (fun _ => one (expressionStatement h)) fun _ =>
    ite (fun _ => stop) fun _ => bindPlace (fun _ _ => rfl) fun _ => pure rfl
  rw [hk.2 hahead]
  rfl

theorem statementOf (h : r.Steady) (kind : Token.Kind) :
    Steady (fun k => P k ∧ k = kind) (statementOf r kind) := by
  have hline : ∀ {marker : Token.Directive} (k : Token.Kind), P k ∧ k = .directive marker →
      k.isDirective = true := by
    rintro marker _ ⟨-, rfl⟩
    rfl
  unfold Grammar.statementOf
  split
  · exact one (ifStatement h)
  · exact one (forStatement h)
  · exact one (whileStatement h)
  · exact one (doWhileStatement h)
  · exact one (switchStatement h)
  · exact one (caseLabel h)
  · exact one defaultLabel
  · exact one (returnStatement h)
  · exact one (jump _ _)
  · exact one (jump _ _)
  · exact one gotoStatement
  · exact one (block h)
  · exact directive hline
  · exact directive hline
  · exact directive hline
  · exact openStatement h kind

theorem statement (h : r.Steady) : Steady P (statement r) :=
  oneDeeper (bindKind fun kind => statementOf h kind)

theorem item (h : r.Steady) : Steady P (item r) := by
  refine bindKind fun kind => ite (fun hline => directive ?_) fun _ =>
    ite (fun hline => directive ?_) fun _ => ite (fun hline => directive ?_) fun _ =>
    ite (fun _ => declaration h) fun _ => bindPlace (fun _ _ => rfl) fun _ => pure rfl
  · rintro _ ⟨-, rfl⟩
    rw [hline]
    rfl
  · rintro _ ⟨-, rfl⟩
    rw [hline]
    rfl
  · rintro _ ⟨-, rfl⟩
    exact hline

end Imitates

/-- The rules come to the same however the keywords are written, at any number of levels. -/
theorem Rules.level_steady (levels : Nat) : (Rules.level levels).Steady := by
  induction levels with
  | zero => exact ⟨.stop, .stop, .stop, .stop, .stop, .stop⟩
  | succ levels ih =>
      exact ⟨Imitates.expression ih, Imitates.conditional ih, Imitates.unary ih,
        Imitates.initializer ih, Imitates.structSpecifier ih, Imitates.statement ih⟩

/-! ## Files -/

/-- The same nodes, and the same state but for how keywords are written. -/
structure Progress.Alike (p p' : Progress) : Prop where
  nodes : p'.nodes = p.nodes
  state : p.state.Alike p'.state

theorem Progress.Alike.flush {p p' : Progress} (h : p.Alike p') : p.flush.Alike p'.flush := by
  have hpass := h.state.passTrivia
  refine ⟨?_, hpass.rest, hpass.stop, hpass.limit, hpass.depth, hpass.onLine, rfl, hpass.plain⟩
  show p'.state.passTrivia.comments.reverse ++ p'.nodes =
    p.state.passTrivia.comments.reverse ++ p.nodes
  rw [hpass.comments, h.nodes]

/-- Items that are read are read to the same nodes. -/
theorem Progress.Reads.alike {r : Rules} {p p' q : Progress} (hr : r.Steady) (h : Reads r p q)
    (hp : p.Alike p') : ∃ q', Reads r p' q' ∧ q.Alike q' := by
  induction h generalizing p' with
  | refl p => exact ⟨p', .refl p', hp⟩
  | @item p q found next hgoes hitem _ ih =>
      obtain ⟨found', next', hitem', rfl, hnext⟩ :=
        Imitates.item hr hp.flush.state (P := Always) trivial hitem
      have hgoes' : p'.flush.state.rest ≠ [] := by
        rw [← List.length_pos_iff, ← hp.flush.state.rest.length_eq]
        exact List.length_pos_iff.mpr hgoes
      have hread : Alike ⟨found.reverse ++ p.flush.nodes, p.failures, next⟩
          ⟨found.reverse ++ p'.flush.nodes, p'.failures, next'⟩ :=
        ⟨by rw [hp.flush.nodes], hnext⟩
      obtain ⟨q', hreads, hq⟩ := ih hread
      exact ⟨q', .item hgoes' hitem' hreads, hq⟩

theorem State.ofTokens_alike {tokens tokens' : List Token}
    (h : List.Forall₂ Token.Alike tokens tokens')
    (hplain : ∀ t ∈ tokens, t.kind.isDirective = false) (limit : Nat) :
    (State.ofTokens tokens limit).Alike (State.ofTokens tokens' limit) := by
  have hgoes : ∀ t u : Token, t.Alike u →
      decide (u.kind ≠ .endOfInput) = decide (t.kind ≠ .endOfInput) := by
    intro t u htu
    rw [htu.kind]
  refine ⟨?_, ?_, rfl, rfl, rfl, rfl, fun t ht => ?_⟩
  · rw [State.ofTokens_rest_eq, State.ofTokens_rest_eq]
    exact Token.Alike.takeWhile hgoes h
  · have hstop : ∀ {ts us : List Token}, List.Forall₂ Token.Alike ts us →
        ((us.dropWhile fun t => t.kind ≠ .endOfInput).head?.map Token.location).getD .start =
          ((ts.dropWhile fun t => t.kind ≠ .endOfInput).head?.map Token.location).getD .start := by
      intro ts us hall
      have hdrop := Token.Alike.dropWhile hgoes hall
      generalize ts.dropWhile _ = closing at hdrop ⊢
      generalize us.dropWhile _ = closing' at hdrop ⊢
      cases hdrop with
      | nil => rfl
      | cons htu _ => exact htu.location
    have hlast := Token.Alike.getLast? h
    unfold State.ofTokens
    dsimp only
    generalize tokens.getLast? = last at hlast ⊢
    generalize tokens'.getLast? = last' at hlast ⊢
    cases hlast with
    | none => rfl
    | some htu =>
        dsimp only
        rw [htu.kind, htu.location]
        split
        · exact hstop h
        · exact hstop (List.rel_append h (.cons (.refl _) .nil))
  · rw [State.ofTokens_rest_eq] at ht
    exact hplain t ((List.takeWhile_prefix _).subset ht)

end Grammar

open Grammar

/-- How keywords are written does not show. A parse that is clean, of tokens without a directive,
is clean with the keywords written in any other way, and comes to the same tree and the same
survey. -/
theorem parse_alike {tokens tokens' : List Token} {options : ParseSettings}
    (h : List.Forall₂ Token.Alike tokens tokens')
    (hplain : ∀ t ∈ tokens, t.kind.isDirective = false)
    (hclean : (parse tokens options).isClean = true) :
    (parse tokens' options).isClean = true ∧
      (parse tokens' options).root = (parse tokens options).root ∧
      Survey.ofNode (parse tokens' options).root = Survey.ofNode (parse tokens options).root := by
  obtain ⟨p, hreads, hend, hparse⟩ := exists_reads_of_isClean hclean
  have hstart : (Progress.start tokens options.maxNesting).Alike
      (.start tokens' options.maxNesting) := ⟨rfl, State.ofTokens_alike h hplain _⟩
  obtain ⟨p', hreads', hp⟩ := hreads.alike (Rules.level_steady _) hstart
  rw [(State.ofTokens_alike h hplain 0).rest.length_eq] at hreads'
  have hend' : p'.flush.state.rest = [] := by
    rw [← List.length_eq_zero_iff, ← hp.flush.state.rest.length_eq, hend]
    rfl
  have hparse' := Progress.Reads.parse_eq hreads' hend'
  have hroot : (parse tokens' options).root = (parse tokens options).root := by
    rw [hparse, hparse']
    show Node.plain .program .start p'.flush.nodes.reverse =
      Node.plain .program .start p.flush.nodes.reverse
    rw [hp.flush.nodes]
  have hfailures : p'.flush.failures = [] := hreads'.failures_eq
  refine ⟨?_, hroot, congrArg Survey.ofNode hroot⟩
  rw [hparse']
  simp [Ending.parsed, Parsed.isClean, hfailures]

/-- A struct with a member that is skipped, and a function, with all keywords in capitals. -/
theorem parse_alike_capitals :
    let tokens : List Token := [⟨.keyword .structKw, "struct", ⟨1, 1⟩⟩,
      ⟨.identifier, "s", ⟨1, 8⟩⟩, ⟨.delimiter .leftBrace, "\x7b", ⟨1, 10⟩⟩,
      ⟨.keyword .unsignedKw, "unsigned", ⟨1, 12⟩⟩, ⟨.identifier, "a", ⟨1, 21⟩⟩,
      ⟨.delimiter .semicolon, ";", ⟨1, 22⟩⟩, ⟨.keyword .intKw, "int", ⟨1, 24⟩⟩,
      ⟨.identifier, "b", ⟨1, 28⟩⟩, ⟨.delimiter .semicolon, ";", ⟨1, 29⟩⟩,
      ⟨.delimiter .rightBrace, "\x7d", ⟨1, 31⟩⟩, ⟨.delimiter .semicolon, ";", ⟨1, 32⟩⟩,
      ⟨.keyword .intKw, "int", ⟨1, 34⟩⟩, ⟨.identifier, "f", ⟨1, 38⟩⟩,
      ⟨.delimiter .leftParen, "(", ⟨1, 39⟩⟩, ⟨.keyword .voidKw, "void", ⟨1, 40⟩⟩,
      ⟨.delimiter .rightParen, ")", ⟨1, 44⟩⟩, ⟨.delimiter .leftBrace, "\x7b", ⟨1, 46⟩⟩,
      ⟨.keyword .returnKw, "return", ⟨1, 48⟩⟩, ⟨.keyword .sizeofKw, "sizeof", ⟨1, 55⟩⟩,
      ⟨.delimiter .leftParen, "(", ⟨1, 61⟩⟩, ⟨.keyword .charKw, "char", ⟨1, 62⟩⟩,
      ⟨.delimiter .rightParen, ")", ⟨1, 66⟩⟩, ⟨.delimiter .semicolon, ";", ⟨1, 67⟩⟩,
      ⟨.delimiter .rightBrace, "\x7d", ⟨1, 69⟩⟩, .endOfInput ⟨1, 70⟩]
    let capitals : List Token := tokens.map fun t =>
      if t.kind.isKeyword then { t with text := t.text.toUpper } else t
    (∀ t ∈ tokens, t.kind.isDirective = false) ∧ (parse tokens {}).isClean = true ∧
      (parse capitals {}).isClean = true ∧ (parse capitals {}).root = (parse tokens {}).root ∧
      Survey.ofNode (parse capitals {}).root = Survey.ofNode (parse tokens {}).root := by
  intro tokens capitals
  have halike : List.Forall₂ Token.Alike tokens capitals := by
    refine List.forall₂_map_right_iff.mpr (List.forall₂_same.mpr fun t _ => ?_)
    split
    · rename_i hword
      exact ⟨rfl, rfl, fun hnot => by rw [hword] at hnot; contradiction⟩
    · exact .refl t
  have hplain : ∀ t ∈ tokens, t.kind.isDirective = false := by decide
  have hclean : (parse tokens {}).isClean = true := by decide +kernel
  exact ⟨hplain, hclean, parse_alike halike hplain hclean⟩

end CSurvey
