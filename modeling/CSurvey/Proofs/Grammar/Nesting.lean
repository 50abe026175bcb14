import CSurvey.Proofs.Grammar.Agree
import CSurvey.Proofs.Grammar.Items
import CSurvey.Proofs.Grammar.Runs

/-! # How deep constructs nest

The limit of a parse bounds how many constructs of a file can be read inside each other, with the
exception of structs: a member of a struct can be a function whose parameter is a struct again, and
nothing on that way counts as a level of depth. What the reading of a file needs is the limit and
the structs inside each other, and no bound by the limit alone exists. -/

namespace CSurvey.Grammar

/-! ## Rules with few structs -/

/-- The rules with `levels` constructs inside each other, of which at most `structs` are structs. -/
def Rules.rationed : Nat → Nat → Rules
  | _, 0 => .none
  | structs, levels + 1 => {
      expression := Grammar.expression (rationed structs levels)
      conditional := Grammar.conditional (rationed structs levels)
      unary := Grammar.unary (rationed structs levels)
      initializer := Grammar.initializer (rationed structs levels)
      structSpecifier := match structs with
        | 0 => fail .exhausted
        | structs + 1 => Grammar.structSpecifier (rationed structs levels)
      statement := Grammar.statement (rationed structs levels) }

theorem Rules.rationed_composed (structs levels : Nat) :
    (Rules.rationed structs levels).Composed := by
  induction levels generalizing structs with
  | zero =>
      exact ⟨.fail _, .fail _, .fail _, .fail _, .fail _, .fail _⟩
  | succ levels ih =>
      refine ⟨.expression (ih _), .conditional (ih _), .unary (ih _), .initializer (ih _), ?_,
        .statement (ih _)⟩
      cases structs with
      | zero => exact .fail _
      | succ structs => exact .structSpecifier (ih structs)

theorem Rules.rationed_advances (structs levels : Nat) :
    Advances State.Settled (Rules.rationed structs levels).statement Always := by
  cases levels with
  | zero => exact .stop
  | succ levels =>
      exact (Advances.statement (Rules.rationed_composed structs levels)).mono fun _ hs =>
        hs.not_missesLine

/-- With as many structs as levels, the structs are no bound of their own. -/
theorem Rules.rationed_eq_level {structs levels : Nat} (h : levels ≤ structs) :
    Rules.rationed structs levels = Rules.level levels := by
  induction levels generalizing structs with
  | zero => rfl
  | succ levels ih =>
      obtain ⟨m, rfl⟩ : ∃ m, structs = m + 1 := ⟨structs - 1, by omega⟩
      simp only [Rules.rationed, Rules.level]
      rw [ih (by omega), ih (by omega)]

/-- No state has less than nothing left. -/
theorem Linked.of_no_state {safe : Prop} {P : State → Prop} {α : Type} {p p' : Parse α}
    (h : ∀ s, ¬P s) : Linked safe P p p' :=
  fun s hs => absurd hs (h s)

/-- A reader that gives up at once asks nothing of the other one. -/
theorem Linked.of_gives_up {P : State → Prop} {α : Type} {p : Parse α} :
    Linked False P p (fail .exhausted) := by
  intro s _
  refine ⟨fun a t ha => by simp [fail] at ha, fun h => absurd ?_ (h.resolve_left id)⟩
  show Cause.exhausted = .exhausted
  rfl

/-- Levels for the depth that is left and for the structs are enough: each other construct counts
as a level of depth. -/
theorem linked_rationed {structs levels structs' levels' tokens depth count : Nat}
    (hstructs : structs' ≤ structs) (hlevels : depth + structs' ≤ levels) :
    (Rules.rationed structs levels).Linked False (Rules.rationed structs' levels') tokens depth
      count := by
  induction levels' generalizing structs levels structs' tokens depth count with
  | zero =>
      exact ⟨Rules.rationed_composed _ _, Rules.rationed_advances _ _, .of_gives_up, .of_gives_up,
        .of_gives_up, .of_gives_up, .of_gives_up, .of_gives_up⟩
  | succ levels' ih =>
      have hcomposed := Rules.rationed_composed structs' (levels' + 1)
      have hadvances := Rules.rationed_advances structs' (levels' + 1)
      have hstruct : Grammar.Linked False
          (fun s => s.Room tokens depth count ∧ s.front.kind = .keyword .structKw)
          (Rules.rationed structs levels).structSpecifier
          (Rules.rationed structs' (levels' + 1)).structSpecifier := by
        cases structs' with
        | zero => exact .of_gives_up
        | succ structs' =>
            obtain ⟨structs, rfl⟩ : ∃ m, structs = m + 1 := ⟨structs - 1, by omega⟩
            obtain ⟨levels, rfl⟩ : ∃ m, levels = m + 1 := ⟨levels - 1, by omega⟩
            have h : (Rules.rationed structs levels).Linked False (Rules.rationed structs' levels')
                tokens depth count := ih (by omega) (by omega)
            exact (Linked.structSpecifier h).mono fun s hs =>
              ⟨hs.1.mono (by omega) (Nat.le_refl _) (by omega), hs.2⟩
      rcases Nat.eq_zero_or_pos depth with rfl | hdepth
      · have hnone : ∀ {t d c : Nat}, d = 0 → ∀ s : State, ¬s.Room t d c := fun hd s hs =>
          Nat.not_lt_zero _ (hd ▸ hs.depth)
        exact ⟨hcomposed, hadvances, .of_no_state (hnone rfl), .of_no_state (hnone rfl),
          .of_no_state (hnone rfl), .of_no_state (hnone rfl), hstruct, .of_no_state (hnone rfl)⟩
      · obtain ⟨levels, rfl⟩ : ∃ m, levels = m + 1 := ⟨levels - 1, by omega⟩
        have h : ∀ tokens, (Rules.rationed structs levels).Linked False
            (Rules.rationed structs' levels') tokens (depth - 1) count := fun _ =>
          ih hstructs (by omega)
        have hroom : ∀ s : State, s.Room tokens (depth - 1) count →
            s.Room (tokens + 1) (depth - 1) count := fun s hs =>
          hs.mono (by omega) (Nat.le_refl _) (Nat.le_refl _)
        refine ⟨hcomposed, hadvances, ?_, ?_, ?_, ?_, hstruct, ?_⟩
        · exact (Linked.expression (h tokens)).mono fun s hs =>
            hs.mono (by omega) (Nat.le_refl _) (Nat.le_refl _)
        · exact (Linked.conditional (h tokens)).mono hroom
        · exact (Linked.unary (h tokens)).mono hroom
        · exact .initializer (h (tokens - 1))
        · exact .statement (h (tokens - 1))

/-- As many levels as tokens are enough, and as many structs as keywords for them. -/
theorem linked_rationed_self {structs levels tokens depth count : Nat} (hlevels : tokens ≤ levels)
    (hstructs : count ≤ structs) :
    (Rules.rationed structs levels).Linked True (Rules.rationed structs levels) tokens depth
      count := by
  induction levels generalizing structs tokens depth count with
  | zero =>
      have hnone : ∀ {d : Nat} {c : Nat} (s : State), ¬s.Room tokens d c := fun s hs =>
        absurd hs.tokens (by omega)
      have hbefore : ∀ {d : Nat} {c : Nat} (s : State), ¬s.Room (tokens - 1) d c := fun s hs =>
        absurd hs.tokens (by omega)
      exact ⟨Rules.rationed_composed _ _, Rules.rationed_advances _ _, .of_no_state hnone,
        .of_no_state hnone, .of_no_state hnone, .of_no_state hbefore,
        .of_no_state fun s hs => hnone s hs.1, .of_no_state hbefore⟩
  | succ levels ih =>
      have h : ∀ depth, (Rules.rationed structs levels).Linked True (Rules.rationed structs levels)
          (tokens - 1) depth count := fun _ => ih (by omega) hstructs
      have hroom : ∀ {d : Nat} (s : State), s.Room tokens d count →
          s.Room (tokens - 1 + 1) d count := fun s hs =>
        hs.mono (by omega) (Nat.le_refl _) (Nat.le_refl _)
      refine ⟨Rules.rationed_composed _ _, Rules.rationed_advances _ _, ?_, ?_, ?_, ?_, ?_, ?_⟩
      · exact (Linked.expression (h (depth - 1))).mono hroom
      · exact (Linked.conditional (h (depth - 1))).mono hroom
      · exact (Linked.unary (h (depth - 1))).mono hroom
      · exact .initializer (h (depth - 1))
      · rcases Nat.eq_zero_or_pos count with rfl | hcount
        · refine .of_no_state fun s hs => ?_
          have hfewer := State.countP_dropFront_lt hs.2
          exact Nat.not_lt_zero _ (Nat.lt_of_lt_of_le hfewer hs.1.structs)
        · obtain ⟨structs, rfl⟩ : ∃ m, structs = m + 1 := ⟨structs - 1, by omega⟩
          have hin : (Rules.rationed structs levels).Linked True (Rules.rationed structs levels)
              (tokens - 1) depth (count - 1) := ih (by omega) (by omega)
          exact (Linked.structSpecifier hin).mono fun s hs =>
            ⟨hs.1.mono (by omega) (Nat.le_refl _) (by omega), hs.2⟩
      · exact .statement (h (depth - 1))

/-- As many levels as tokens are enough for the rules. -/
theorem linked_level_self (levels depth : Nat) :
    (Rules.level levels).Linked True (Rules.level levels) levels depth levels := by
  have hlinked : (Rules.rationed levels levels).Linked True (Rules.rationed levels levels) levels
      depth levels := linked_rationed_self (Nat.le_refl _) (Nat.le_refl _)
  rwa [Rules.rationed_eq_level (Nat.le_refl _)] at hlinked

theorem State.room_of_length_lt {levels : Nat} {s : State} (h : s.rest.length < levels) :
    s.Room levels (s.limit - s.depth + 1) levels :=
  ⟨h, Nat.lt_succ_self _, Nat.le_trans List.countP_le_length (Nat.le_of_lt h)⟩

theorem not_runsOut_item {levels : Nat} {s : State} (h : s.rest.length < levels) :
    ¬RunsOut (item (.level levels) s) :=
  ((Linked.item (linked_level_self levels _) (State.room_of_length_lt h)).2 (.inl trivial)).2

/-- For an item, all levels that are more than the tokens are alike. -/
theorem item_level_congr {few many : Nat} {s : State} (hfew : s.rest.length < few)
    (hmany : s.rest.length < many) : item (.level few) s = item (.level many) s := by
  let depth := s.limit - s.depth + 1
  have hall : ∀ {levels : Nat}, s.rest.length < levels → levels ≤ few + many →
      item (.level (depth + (few + many))) s = item (.level levels) s := by
    intro levels h hle
    have hlinked : (Rules.rationed (depth + (few + many)) (depth + (few + many))).Linked False
        (Rules.rationed levels levels) levels depth levels :=
      linked_rationed (by omega) (by omega)
    rw [Rules.rationed_eq_level (Nat.le_refl _), Rules.rationed_eq_level (Nat.le_refl _)]
      at hlinked
    have hroom : s.Room levels depth levels := State.room_of_length_lt h
    exact ((Linked.item hlinked hroom).2 (.inr (not_runsOut_item h))).1
  exact (hall hfew (Nat.le_add_right _ _)).symm.trans (hall hmany (Nat.le_add_left _ _))

/-! ## Files -/

/-- The failures of a reading that has ended. -/
def Ending.failures : Ending → List Failure
  | .complete progress => progress.failures
  | .stopped failure _ => [failure]

/-- Some item was given up because no nesting was left to it. -/
def Ending.GaveUp (e : Ending) : Prop :=
  ∃ f ∈ e.failures, f.cause = .exhausted

/-- A failure behind which reading goes on is kept. -/
theorem failures_readItems (r : Rules) (fuel : List Token) (p : Progress) :
    p.failures ⊆ (readItems r true fuel p).failures := by
  have hends : (readItems r true fuel p).Ends (fun q => p.failures ⊆ q.failures) fun _ _ => False :=
    readItems_keeps (fun q h => h) (fun q h _ _ _ _ => h)
      (fun q h _ _ _ _ => ⟨fun _ => List.subset_cons_of_subset _ h, by simp⟩)
      (List.Subset.refl _)
  cases hread : readItems r true fuel p with
  | complete q =>
      rw [hread] at hends
      exact hends
  | stopped failure state =>
      rw [hread] at hends
      exact hends.elim

theorem State.Room.flush {tokens depth structs : Nat} {p : Progress}
    (h : p.state.Room tokens depth structs) : p.flush.state.Room tokens depth structs := by
  have hpass : p.state.passTrivia.Room tokens depth structs := Stable.leads h (.passTrivia _)
  exact ⟨hpass.tokens, hpass.depth, hpass.structs⟩

theorem State.Room.resume {tokens depth structs : Nat} {s failed : State}
    (h : s.Room tokens depth structs) (hfailed : s.Leads failed) :
    (failed.resume s.rest).Room tokens (s.limit + 1) structs := by
  obtain ⟨passed, hpassed, -⟩ := skips_behindItem
    ((s.rest.head?.map fun t => t.kind.isDirective).getD false) true 0 s.rest
  have hrest : (failed.resume s.rest).rest <:+ s.rest := ⟨passed, hpassed.symm⟩
  have hlimit := hfailed.limit
  refine ⟨Nat.lt_of_le_of_lt hrest.length_le h.tokens, ?_,
    Nat.le_trans hrest.sublist.countP_le h.structs⟩
  show failed.limit - 0 < s.limit + 1
  omega

/-- Files are read alike by rules that agree on their items. -/
theorem readItems_agree {safe : Prop} {r r' : Rules} {tokens limit structs : Nat} {recover : Bool}
    (h : r.Linked safe r' tokens (limit + 1) structs) {fuel : List Token} {p : Progress}
    (hlimit : p.state.limit = limit) (hroom : p.state.Room tokens (limit + 1) structs)
    (hp : ∀ f ∈ p.failures, f.cause ≠ .exhausted)
    (hsafe : safe ∨ ¬(readItems r' recover fuel p).GaveUp) :
    readItems r recover fuel p = readItems r' recover fuel p ∧
      ¬(readItems r recover fuel p).GaveUp := by
  have hdone : ¬(Ending.complete p.flush).GaveUp := fun ⟨f, hf, hout⟩ => hp f hf hout
  induction fuel generalizing p with
  | nil =>
      rw [readItems_nil, readItems_nil]
      exact ⟨rfl, hdone⟩
  | cons x fuel ih =>
      by_cases hend : p.flush.state.rest = []
      · rw [readItems_end hend, readItems_end hend]
        exact ⟨rfl, hdone⟩
      · obtain ⟨hleads, hagree⟩ := Linked.item h hroom.flush
        cases hitem : item r' p.flush.state with
        | ok found next =>
            rw [hitem] at hagree
            obtain ⟨heq, -⟩ := hagree (.inr fun h => h)
            have hnext := hleads hitem
            rw [readItems_ok hend hitem] at hsafe
            rw [readItems_ok hend hitem, readItems_ok hend heq]
            exact ih (hnext.limit.trans hlimit) (Stable.leads hroom.flush hnext) hp hsafe
              fun ⟨f, hf, hout⟩ => hp f hf hout
        | error failure failed =>
            rw [hitem] at hagree
            have hkept : failure ∈ (readItems r' recover (x :: fuel) p).failures := by
              cases recover with
              | true =>
                  rw [readItems_recovered hend hitem]
                  exact failures_readItems _ _ _ (List.mem_cons_self ..)
              | false =>
                  rw [readItems_stopped hend hitem]
                  exact List.mem_cons_self ..
            obtain ⟨heq, hout⟩ := hagree <| hsafe.imp_right fun hsafe hout =>
              hsafe ⟨failure, hkept, hout⟩
            rw [heq] at hout
            cases recover with
            | true =>
                have hfailed := (Composed.item h.composed).leads_error hitem
                have hlimit' : p.flush.state.limit = limit := hlimit
                have hnext := hroom.flush.resume hfailed
                rw [hlimit'] at hnext
                have hp' : ∀ f ∈ failure :: p.failures, f.cause ≠ .exhausted := by
                  rintro f (_ | ⟨_, hf⟩)
                  · exact hout
                  · exact hp f hf
                rw [readItems_recovered hend hitem] at hsafe
                rw [readItems_recovered hend hitem, readItems_recovered hend heq]
                exact ih (hfailed.limit.trans hlimit') hnext hp' hsafe
                  fun ⟨f, hf, hf'⟩ => hp' f hf hf'
            | false =>
                rw [readItems_stopped hend hitem, readItems_stopped hend heq]
                refine ⟨rfl, ?_⟩
                rintro ⟨f, hf, hf'⟩
                rw [List.mem_singleton.mp hf] at hf'
                exact hout hf'

/-! ## What a parse needs -/

/-- Nothing in a file is given up with so many constructs inside each other. -/
def LevelsSuffice (tokens : List Token) (options : ParseSettings) (levels : Nat) : Prop :=
  ¬(readFile (.level levels) tokens options).GaveUp

/-- Nothing in a file is given up with so many structs inside each other, whatever the number of
the other constructs. -/
def StructsSuffice (tokens : List Token) (options : ParseSettings) (structs : Nat) : Prop :=
  ∃ levels, ¬(readFile (.rationed structs levels) tokens options).GaveUp

variable {tokens : List Token} {options : ParseSettings} {structs levels : Nat}

theorem readFile_agree {safe : Prop} {r r' : Rules} {more count : Nat}
    (h : r.Linked safe r' (more + 1) (options.maxNesting + 1) count)
    (hmore : (State.ofTokens tokens options.maxNesting).rest.length ≤ more)
    (hcount : ((State.ofTokens tokens options.maxNesting).rest.countP fun t =>
      t.kind = .keyword .structKw) ≤ count)
    (hsafe : safe ∨ ¬(readFile r' tokens options).GaveUp) :
    readFile r tokens options = readFile r' tokens options ∧
      ¬(readFile r tokens options).GaveUp := by
  refine readItems_agree h rfl ⟨Nat.lt_succ_of_le hmore, ?_, hcount⟩ (by simp) hsafe
  show options.maxNesting - 0 < options.maxNesting + 1
  omega

/-- What a file needs is a level for each level of depth and for each struct. -/
theorem levelsSuffice_of_structsSuffice (h : StructsSuffice tokens options structs) :
    LevelsSuffice tokens options (options.maxNesting + 1 + structs) := by
  obtain ⟨levels, hlevels⟩ := h
  let enough := options.maxNesting + 1 + structs
  have hlinked : (Rules.rationed enough enough).Linked False (Rules.rationed structs levels)
      ((State.ofTokens tokens options.maxNesting).rest.length + 1) (options.maxNesting + 1)
      (State.ofTokens tokens options.maxNesting).rest.length :=
    linked_rationed (by omega) (Nat.le_refl _)
  rw [Rules.rationed_eq_level (Nat.le_refl _)] at hlinked
  exact (readFile_agree hlinked (Nat.le_refl _) List.countP_le_length (.inr hlevels)).2

theorem structsSuffice_of_levelsSuffice (h : LevelsSuffice tokens options levels) :
    StructsSuffice tokens options levels := by
  refine ⟨levels, ?_⟩
  rw [Rules.rationed_eq_level (Nat.le_refl _)]
  exact h

/-- No more structs are inside each other than there are keywords for them. -/
theorem structsSuffice_countP :
    StructsSuffice tokens options
      ((State.ofTokens tokens options.maxNesting).rest.countP fun t =>
        t.kind = .keyword .structKw) :=
  ⟨_, (readFile_agree (linked_rationed_self (Nat.le_refl _) (Nat.le_refl _)) (Nat.le_refl _)
    (Nat.le_refl _) (.inl trivial)).2⟩

/-- The rules for its tokens are enough for a file. -/
theorem not_gaveUp_forTokens (tokens : List Token) (options : ParseSettings) :
    ¬(readFile (.forTokens (State.ofTokens tokens options.maxNesting).rest) tokens
      options).GaveUp := by
  let few := 2 * (State.ofTokens tokens options.maxNesting).rest.length + 2
  have hself : (Rules.rationed few few).Linked True (Rules.rationed few few)
      ((State.ofTokens tokens options.maxNesting).rest.length + 1) (options.maxNesting + 1)
      (State.ofTokens tokens options.maxNesting).rest.length :=
    linked_rationed_self (by omega) (by omega)
  rw [Rules.rationed_eq_level (Nat.le_refl _)] at hself
  exact (readFile_agree hself (Nat.le_refl _) List.countP_le_length (.inl trivial)).2

/-! ## Structs without end -/

/-- Structs inside each other, each in the parameters of a member of the one before. -/
def structsInside : Nat → List Token
  | 0 => []
  | structs + 1 =>
      ⟨.keyword .structKw, "struct", .start⟩ :: ⟨.identifier, "S", .start⟩ ::
        ⟨.delimiter .leftBrace, "\x7b", .start⟩ :: ⟨.keyword .intKw, "int", .start⟩ ::
        ⟨.identifier, "f", .start⟩ :: ⟨.delimiter .leftParen, "(", .start⟩ ::
        structsInside structs

/-- Wherever the tokens stand next, the reader gives up. -/
def RunsOutAt {α : Type} (ts : List Token) (p : Parse α) : Prop :=
  ∀ s : State, s.words = ts → RunsOut (p s)

namespace RunsOutAt

variable {α β : Type} {t : Token} {ts : List Token}

theorem bind {p : Parse α} {f : α → Parse β} (h : RunsOutAt ts p) : RunsOutAt ts (p >>= f) := by
  intro s hs
  have hout := h s hs
  rw [bind_apply]
  cases hp : p s with
  | ok a u =>
      rw [hp] at hout
      exact hout.elim
  | error e u =>
      rw [hp] at hout
      exact hout

theorem assoc {γ : Type} {p : Parse α} {f : α → Parse β} {g : β → Parse γ}
    (h : RunsOutAt ts (p >>= fun a => f a >>= g)) : RunsOutAt ts ((p >>= f) >>= g) := by
  rwa [bind_assoc]

/-- A part that comes to its end without a step is passed. -/
theorem behind {p : Parse α} {f : α → Parse β} {a : α}
    (hp : ∀ s : State, s.words = ts → p s = .ok a s) (h : RunsOutAt ts (f a)) :
    RunsOutAt ts (p >>= f) := by
  intro s hs
  rw [bind_apply, hp s hs]
  exact h s hs

theorem take {f : Token → Parse β} (h : RunsOutAt ts (f t)) :
    RunsOutAt (t :: ts) (takeFront >>= f) := by
  intro s hs
  have hfront := s.front_of_cons hs
  show RunsOut (f s.front s.dropFront)
  rw [hfront]
  exact h _ (s.words_dropFront hs)

theorem look {f : Token.Kind → Parse β} (h : RunsOutAt (t :: ts) (f t.kind)) :
    RunsOutAt (t :: ts) (frontKind >>= f) := by
  refine behind (fun s hs => ?_) h
  rw [frontKind, s.front_of_cons hs]

theorem place {f : Position → Parse β} (h : RunsOutAt (t :: ts) (f t.location)) :
    RunsOutAt (t :: ts) (here >>= f) := by
  refine behind (fun s hs => ?_) h
  rw [here, s.front_of_cons hs]

theorem accept {kind : Token.Kind} {f : Bool → Parse β} (hk : t.kind = kind)
    (h : RunsOutAt ts (f true)) : RunsOutAt (t :: ts) (accept kind >>= f) := by
  intro s hs
  have hin : RunsOut (f true s.dropFront) := h _ (s.words_dropFront hs)
  have hfront : s.front.kind = kind := by rw [s.front_of_cons hs, hk]
  have haccept : Grammar.accept kind s = .ok true s.dropFront := by
    show (if s.front.kind = kind then _ else _ : Parse Bool) s = _
    rw [if_pos hfront]
    rfl
  rw [bind_apply, haccept]
  exact hin

theorem loop {round : α → Parse (Turn α)} {a : α} (h : RunsOutAt ts (round a)) :
    RunsOutAt ts (loop round a) := by
  intro s hs
  show RunsOut (rounds round s.rest a s)
  cases s.rest with
  | nil => exact bind h s hs
  | cons x xs => exact bind h s hs

end RunsOutAt

/-- Nothing but the levels bounds the reading of structs inside each other. -/
theorem runsOutAt_structsInside {levels structs : Nat} (h : levels < structs) :
    RunsOutAt (structsInside structs) (Rules.level levels).structSpecifier := by
  induction levels generalizing structs with
  | zero =>
      intro s _
      rfl
  | succ levels ih =>
      obtain ⟨n, rfl⟩ : ∃ n, structs = n + 1 + 1 := ⟨structs - 2, by omega⟩
      have hin : RunsOutAt (structsInside (n + 1)) (Rules.level levels).structSpecifier :=
        ih (by omega)
      have htype : RunsOutAt (structsInside (n + 1)) (typeSpecifier (.level levels)) := by
        refine .behind (fun s hs => typeModifiers_none ?_) (.look (.bind hin))
        rw [s.front_of_cons hs]
        rfl
      have hparameters : RunsOutAt (structsInside (n + 1)) (parameterList (.level levels)) := by
        refine .look (.behind (a := .identifier) (fun s hs => ?_) ?_)
        · rw [secondKind, s.second_of_cons hs]
          rfl
        · exact .bind (.loop (.look (.bind (.place (.look (.bind (.bind htype)))))))
      have hdeclarator : RunsOutAt (⟨.identifier, "f", .start⟩ ::
          ⟨.delimiter .leftParen, "(", .start⟩ :: structsInside (n + 1))
          (declarator (.level levels)) := by
        refine .behind (fun s hs => pointers_none ?_)
          (.look (.take (.accept rfl (.bind hparameters))))
        rw [s.front_of_cons hs]
        simp
      have hmembers : RunsOutAt (⟨.keyword .intKw, "int", .start⟩ :: ⟨.identifier, "f", .start⟩ ::
          ⟨.delimiter .leftParen, "(", .start⟩ :: structsInside (n + 1))
          (structMembers (.level levels)) := by
        refine .place (.assoc (.behind (fun s hs => typeModifiers_none ?_)
          (.assoc (.look (.assoc (.take (.behind (fun s _ => rfl) ?_)))))))
        · rw [s.front_of_cons hs]
          rfl
        · exact .bind (.bind (.loop (.bind hdeclarator)))
      refine .take (.look (.take (.accept rfl (.bind (.bind (.loop (.look ?_)))))))
      exact .behind (a := ()) (fun s _ => rfl) (.bind hmembers)

/-- The item that the structs are in is given up too. -/
theorem runsOutAt_item {levels structs : Nat} (h : levels ≤ structs) :
    RunsOutAt (structsInside (structs + 1)) (item (.level levels)) := by
  refine .look (.place (.bind (.behind (fun s hs => typeModifiers_none ?_) (.look (.bind ?_)))))
  · rw [s.front_of_cons hs]
    rfl
  · exact runsOutAt_structsInside (Nat.lt_succ_of_le h)

theorem kinds_structsInside (structs : Nat) :
    ∀ t ∈ structsInside structs,
      t.kind ≠ .endOfInput ∧ t.kind ≠ .newline ∧ t.kind.isComment = false := by
  induction structs with
  | zero => simp [structsInside]
  | succ structs ih =>
      simp only [structsInside, List.forall_mem_cons]
      exact ⟨by decide, by decide, by decide, by decide, by decide, by decide, ih⟩

theorem words_structsInside {structs : Nat} {s : State} (h : s.rest = structsInside structs) :
    s.words = structsInside structs := by
  rw [State.words, h]
  refine List.filter_eq_self.mpr fun t ht => ?_
  obtain ⟨-, hline, hcomment⟩ := kinds_structsInside structs t ht
  simp [State.isPassed, hline, hcomment]

/-- No number of levels is enough for all files, whatever the limit. -/
theorem exists_not_levelsSuffice (options : ParseSettings) (levels : Nat) :
    ∃ tokens, ¬LevelsSuffice tokens options levels := by
  let tokens := structsInside (levels + 1) ++ [.endOfInput .start]
  let start := State.ofTokens tokens options.maxNesting
  let p : Progress := ⟨[], [], start⟩
  have hrest : start.rest = structsInside (levels + 1) :=
    State.ofTokens_rest .start _ fun t ht => (kinds_structsInside _ t ht).1
  have hwords : p.flush.state.words = structsInside (levels + 1) := by
    rw [← words_structsInside hrest, start.words_eq_filter_upcoming]
    rfl
  have hopen : p.flush.state.rest ≠ [] := by
    intro hnone
    rw [State.words, hnone] at hwords
    contradiction
  have hout := runsOutAt_item (Nat.le_refl levels) _ hwords
  refine ⟨tokens, fun h => h ?_⟩
  show (readItems (.level levels) options.recover start.rest p).GaveUp
  rw [hrest]
  cases hitem : item (.level levels) p.flush.state with
  | ok found next =>
      rw [hitem] at hout
      exact hout.elim
  | error failure failed =>
      rw [hitem] at hout
      refine ⟨failure, ?_, hout⟩
      cases options.recover with
      | true =>
          show failure ∈ (readItems _ true (_ :: _) p).failures
          rw [readItems_recovered hopen hitem]
          exact failures_readItems _ _ _ (List.mem_cons_self ..)
      | false =>
          show failure ∈ (readItems _ false (_ :: _) p).failures
          rw [readItems_stopped hopen hitem]
          exact List.mem_cons_self ..

/-- No number of levels in proportion to the limit is enough for all files. -/
theorem levelsSuffice_unbounded :
    ¬∃ factor, ∀ (tokens : List Token) (options : ParseSettings),
      LevelsSuffice tokens options (factor * (options.maxNesting + 1)) := by
  rintro ⟨factor, h⟩
  let options : ParseSettings := {}
  obtain ⟨tokens, hnot⟩ := exists_not_levelsSuffice options (factor * (options.maxNesting + 1))
  exact hnot (h tokens options)

/-- A number of levels in proportion to the limit is enough for the files of a class exactly if the
structs inside each other are not more than in proportion to the limit. -/
theorem levelsSuffice_iff_structsSuffice (files : List Token → ParseSettings → Prop) :
    (∃ factor, ∀ tokens options, files tokens options →
        LevelsSuffice tokens options (factor * (options.maxNesting + 1))) ↔
      ∃ factor, ∀ tokens options, files tokens options →
        StructsSuffice tokens options (factor * (options.maxNesting + 1)) := by
  constructor
  · rintro ⟨factor, h⟩
    exact ⟨factor, fun tokens options hfile =>
      structsSuffice_of_levelsSuffice (h tokens options hfile)⟩
  · rintro ⟨factor, h⟩
    refine ⟨factor + 1, fun tokens options hfile => ?_⟩
    have hlevels := levelsSuffice_of_structsSuffice (h tokens options hfile)
    rwa [Nat.add_comm, ← Nat.succ_mul] at hlevels

end CSurvey.Grammar
