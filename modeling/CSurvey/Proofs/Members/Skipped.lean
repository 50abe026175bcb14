import CSurvey.Proofs.Grammar.Limits
import CSurvey.Proofs.Members.Completeness
import CSurvey.Proofs.Members.Soundness
import CSurvey.Survey.Basic

/-! # Members that are kept and members that are skipped

A struct body as a sequence of members, each up to its semicolon. Those of a supported type are
kept with their declarators. The others are skipped, but not as wholes: a word of a supported type
outside all braces opens a member wherever it stands. -/

namespace CSurvey

/-! ## Bodies as sequences of members -/

/-- Words that close their brackets of all kinds. A semicolon stands inside brackets only, unless
the words do so themselves. -/
inductive NestedWords : Bool → List Word → Prop where
  | none {inside : Bool} : NestedWords inside []
  | word {inside : Bool} {w : Word} {us : List Word} (hbracket : w.1.isBracket = false)
      (hend : w.1 ≠ .endOfInput) (hstop : inside = false → w.1 ≠ .delimiter .semicolon) :
      NestedWords inside us → NestedWords inside (w :: us)
  | enclosed {inside : Bool} {o c : Word} {ws us : List Word} (hoc : o.1.encloses c.1 = true) :
      NestedWords true ws → NestedWords inside us → NestedWords inside (o :: (ws ++ c :: us))
  | braced {inside : Bool} {o c : Word} {ws us : List Word} (ho : o.1 = .delimiter .leftBrace)
      (hc : c.1 = .delimiter .rightBrace) :
      NestedWords true ws → NestedWords inside us → NestedWords inside (o :: (ws ++ c :: us))

/-- A member of an unsupported type: words that close their brackets, up to the first semicolon
outside them, and not opening with a supported type. -/
inductive SkippedWords : List Word → Prop where
  | intro {ws : List Word} {stop : Word} (hws : NestedWords false ws)
      (hstop : stop.1 = .delimiter .semicolon)
      (hhead : (headKind (ws ++ [stop])).isMemberType = false) : SkippedWords (ws ++ [stop])

/-- The members between the braces of a struct: those of supported types with so many declarators
in all, and the given ones of other types. -/
inductive MembersWords : Nat → List (List Word) → List Word → Prop where
  | none : MembersWords 0 [] []
  | kept {m n : Nat} {skipped : List (List Word)} {ws us : List Word} :
      MemberWords (NamesType StructWords) m ws → MembersWords n skipped us →
      MembersWords (m + n) skipped (ws ++ us)
  | skipped {n : Nat} {skipped : List (List Word)} {ws us : List Word} :
      SkippedWords ws → MembersWords n skipped us → MembersWords n (ws :: skipped) (ws ++ us)

/-- The words outside all braces, where `depth` braces are open at first. -/
def outsideBraces : Nat → List Word → List Word
  | _, [] => []
  | depth, w :: ws =>
    match w.1 with
    | .delimiter .leftBrace => outsideBraces (depth + 1) ws
    | .delimiter .rightBrace => outsideBraces (depth - 1) ws
    | _ => if depth = 0 then w :: outsideBraces depth ws else outsideBraces depth ws

/-- No word of a supported type stands outside all braces. -/
def HidesTypes (ws : List Word) : Prop :=
  ∀ w ∈ outsideBraces 0 ws, w.1.isMemberType = false

instance (ws : List Word) : Decidable (HidesTypes ws) :=
  inferInstanceAs (Decidable (∀ w ∈ outsideBraces 0 ws, w.1.isMemberType = false))

section Braces

variable {w : Word} {ws us : List Word} {depth : Nat}

theorem outsideBraces_left (hw : w.1 = .delimiter .leftBrace) :
    outsideBraces depth (w :: ws) = outsideBraces (depth + 1) ws := by
  simp [outsideBraces, hw]

theorem outsideBraces_right (hw : w.1 = .delimiter .rightBrace) :
    outsideBraces depth (w :: ws) = outsideBraces (depth - 1) ws := by
  simp [outsideBraces, hw]

theorem outsideBraces_other (hleft : w.1 ≠ .delimiter .leftBrace)
    (hright : w.1 ≠ .delimiter .rightBrace) :
    outsideBraces depth (w :: ws) =
      if depth = 0 then w :: outsideBraces depth ws else outsideBraces depth ws := by
  rw [outsideBraces]
  split
  · contradiction
  · contradiction
  · rfl

/-- Nothing of a group in braces stands outside. -/
theorem ClosingWords.outsideBraces (h : ClosingWords depth ws) :
    outsideBraces depth (ws ++ us) = CSurvey.outsideBraces 0 us := by
  induction h with
  | done => rfl
  | opened hw _ ih => rw [List.cons_append, outsideBraces_left hw, ih]
  | closed hw _ ih =>
      rw [List.cons_append, outsideBraces_right hw, Nat.add_sub_cancel, ih]
  | inside hleft hright _ _ ih =>
      rw [List.cons_append, outsideBraces_other hleft hright, if_neg (by omega), ih]

theorem HidesTypes.cons_iff (hleft : w.1 ≠ .delimiter .leftBrace)
    (hright : w.1 ≠ .delimiter .rightBrace) :
    HidesTypes (w :: ws) ↔ w.1.isMemberType = false ∧ HidesTypes ws := by
  rw [HidesTypes, outsideBraces_other hleft hright, if_pos rfl, List.forall_mem_cons]
  rfl

theorem HidesTypes.group_iff (hw : w.1 = .delimiter .leftBrace) (hws : ClosingWords 1 ws) :
    HidesTypes (w :: (ws ++ us)) ↔ HidesTypes us := by
  rw [HidesTypes, outsideBraces_left hw, hws.outsideBraces]
  rfl

/-- Only one first part of the words closes the braces. -/
theorem ClosingWords.unique {ws' us' : List Word} (h : ClosingWords depth ws)
    (h' : ClosingWords depth ws') (heq : ws ++ us = ws' ++ us') : ws = ws' ∧ us = us' := by
  induction h generalizing ws' with
  | done =>
      cases h'
      exact ⟨rfl, heq⟩
  | @opened d w ws hw _ ih =>
      cases h' with
      | opened _ h' =>
          obtain ⟨rfl, htail⟩ := List.cons.inj heq
          obtain ⟨rfl, rfl⟩ := ih h' htail
          exact ⟨rfl, rfl⟩
      | closed hw' _ =>
          obtain ⟨rfl, -⟩ := List.cons.inj heq
          simp [hw] at hw'
      | inside hleft _ _ _ =>
          obtain ⟨rfl, -⟩ := List.cons.inj heq
          contradiction
  | @closed d w ws hw _ ih =>
      cases h' with
      | opened hw' _ =>
          obtain ⟨rfl, -⟩ := List.cons.inj heq
          simp [hw] at hw'
      | closed _ h' =>
          obtain ⟨rfl, htail⟩ := List.cons.inj heq
          obtain ⟨rfl, rfl⟩ := ih h' htail
          exact ⟨rfl, rfl⟩
      | inside _ hright _ _ =>
          obtain ⟨rfl, -⟩ := List.cons.inj heq
          contradiction
  | @inside d w ws hleft hright _ _ ih =>
      cases h' with
      | opened hw' _ =>
          obtain ⟨rfl, -⟩ := List.cons.inj heq
          contradiction
      | closed hw' _ =>
          obtain ⟨rfl, -⟩ := List.cons.inj heq
          contradiction
      | inside _ _ _ h' =>
          obtain ⟨rfl, htail⟩ := List.cons.inj heq
          obtain ⟨rfl, rfl⟩ := ih h' htail
          exact ⟨rfl, rfl⟩

end Braces

/-- A line of members shows its type, and has a declarator. -/
theorem MemberWords.not_hidesTypes {Names : String → List Word → Prop} {n : Nat} {ws : List Word}
    (h : MemberWords Names n ws) (us : List Word) : ¬HidesTypes (ws ++ us) ∧ n ≠ 0 := by
  obtain ⟨hbase, hsome, -, -, -⟩ := h
  rename_i base stop declarators ws
  refine ⟨fun hhides => ?_, by simpa using hsome⟩
  have hbraces : base.1 ≠ .delimiter .leftBrace ∧ base.1 ≠ .delimiter .rightBrace := by
    constructor
    · rintro hk
      rw [hk] at hbase
      contradiction
    · rintro hk
      rw [hk] at hbase
      contradiction
  have hmember := ((HidesTypes.cons_iff hbraces.1 hbraces.2).mp hhides).1
  rw [hbase] at hmember
  contradiction

/-! ## What is left of a member

A member is read from its first word on, so that inside parentheses its words have no beginning of
their own. `depth` is the number of parentheses and brackets open. -/

/-- The words of a member from somewhere outside its braces up to its semicolon. -/
inductive PendingWords : Nat → List Word → Prop where
  | stop {w : Word} (hw : w.1 = .delimiter .semicolon) : PendingWords 0 [w]
  | word {depth : Nat} {w : Word} {ws : List Word} (hbracket : w.1.isBracket = false)
      (hend : w.1 ≠ .endOfInput) (hstop : depth = 0 → w.1 ≠ .delimiter .semicolon) :
      PendingWords depth ws → PendingWords depth (w :: ws)
  | opened {depth : Nat} {w c : Word} {ws : List Word} (hw : w.1.encloses c.1 = true) :
      PendingWords (depth + 1) ws → PendingWords depth (w :: ws)
  | closed {depth : Nat} {o w : Word} {ws : List Word} (hw : o.1.encloses w.1 = true) :
      PendingWords depth ws → PendingWords (depth + 1) (w :: ws)
  | group {depth : Nat} {w : Word} {ws us : List Word} (hw : w.1 = .delimiter .leftBrace)
      (hws : ClosingWords 1 ws) : PendingWords depth us → PendingWords depth (w :: (ws ++ us))

theorem NestedWords.closing {inside : Bool} {depth : Nat} {ws us : List Word}
    (h : NestedWords inside ws) (hus : ClosingWords (depth + 1) us) :
    ClosingWords (depth + 1) (ws ++ us) := by
  induction h generalizing depth us with
  | none => exact hus
  | word hbracket hend _ _ ih =>
      refine .inside ?_ ?_ hend (ih hus)
      · rintro hleft
        simp [hleft, Token.Kind.isBracket] at hbracket
      · rintro hright
        simp [hright, Token.Kind.isBracket] at hbracket
  | @enclosed inside o c ws us' hoc _ _ ihin ih =>
      rw [List.cons_append, List.append_assoc, List.cons_append]
      rcases Token.Kind.encloses_iff.mp hoc with ⟨ho, hc⟩ | ⟨ho, hc⟩
      · exact .inside (by simp [ho]) (by simp [ho]) (by simp [ho])
          (ihin (.inside (by simp [hc]) (by simp [hc]) (by simp [hc]) (ih hus)))
      · exact .inside (by simp [ho]) (by simp [ho]) (by simp [ho])
          (ihin (.inside (by simp [hc]) (by simp [hc]) (by simp [hc]) (ih hus)))
  | braced ho hc _ _ ihin ih =>
      rw [List.cons_append, List.append_assoc, List.cons_append]
      exact .opened ho (ihin (.closed hc (ih hus)))

/-- Nested words may stand before what is left of a member. -/
theorem NestedWords.pending {inside : Bool} {depth : Nat} {ws us : List Word}
    (h : NestedWords inside ws) (hinside : inside = true → 0 < depth)
    (hus : PendingWords depth us) : PendingWords depth (ws ++ us) := by
  induction h generalizing depth us with
  | none => exact hus
  | @word inside w ws hbracket hend hstop _ ih =>
      refine .word hbracket hend (fun hdepth => hstop ?_) (ih hinside hus)
      cases inside with
      | false => rfl
      | true =>
          have hpos := hinside rfl
          omega
  | enclosed hoc _ _ ihin ih =>
      rw [List.cons_append, List.append_assoc, List.cons_append]
      exact .opened hoc (ihin (fun _ => Nat.succ_pos _) (.closed hoc (ih hinside hus)))
  | @braced inside o c ws us' ho hc hws _ _ ih =>
      have hgroup : ClosingWords 1 (ws ++ [c]) := hws.closing (.closed hc .done)
      have hpending := PendingWords.group ho hgroup (ih hinside hus)
      simpa using hpending

theorem SkippedWords.pending {ws : List Word} (h : SkippedWords ws) : PendingWords 0 ws := by
  obtain ⟨hws, hstop, -⟩ := h
  exact hws.pending (by simp) (.stop hstop)

theorem EvenWords.pending {depth : Nat} {ws us : List Word} (h : EvenWords ws)
    (hus : PendingWords depth us) : PendingWords depth (ws ++ us) := by
  induction h generalizing depth us with
  | none => exact hus
  | plain hw _ ih =>
      simp only [Token.Kind.isPlain, Bool.and_eq_true, Bool.not_eq_true', bne_iff_ne] at hw
      exact .word hw.1.1 hw.2 (fun _ => hw.1.2) (ih hus)
  | enclosed hoc _ _ ihin ih =>
      rw [List.cons_append, List.append_assoc, List.cons_append]
      exact .opened hoc (ihin (.closed hoc (ih hus)))
  | group ho hws _ ih =>
      rw [List.cons_append, List.append_assoc]
      exact .group ho hws (ih hus)

/-! ## Members within what is left of a member -/

theorem Token.Kind.isBracket_of_encloses {o c : Token.Kind} (h : o.encloses c = true) :
    o.isBracket = true ∧ c.isBracket = true := by
  rcases encloses_iff.mp h with ⟨rfl, rfl⟩ | ⟨rfl, rfl⟩
  · exact ⟨rfl, rfl⟩
  · exact ⟨rfl, rfl⟩

/-- What opens a pair does not close one. -/
theorem Token.Kind.not_encloses_of_encloses {o o' c : Token.Kind} (h : o.encloses c = true) :
    o'.encloses o = false := by
  rcases encloses_iff.mp h with ⟨rfl, -⟩ | ⟨rfl, -⟩
  · cases o' with
    | delimiter d => cases d <;> rfl
    | _ => rfl
  · cases o' with
    | delimiter d => cases d <;> rfl
    | _ => rfl

theorem Token.Kind.ne_of_opens {o c : Token.Kind} (h : o.encloses c = true) :
    o ≠ .delimiter .leftBrace ∧ o ≠ .delimiter .rightBrace ∧ o ≠ .endOfInput := by
  rcases encloses_iff.mp h with ⟨rfl, -⟩ | ⟨rfl, -⟩
  · simp
  · simp

theorem Token.Kind.ne_of_closes {o c : Token.Kind} (h : o.encloses c = true) :
    c ≠ .delimiter .leftBrace ∧ c ≠ .delimiter .rightBrace ∧ c ≠ .endOfInput := by
  rcases encloses_iff.mp h with ⟨-, rfl⟩ | ⟨-, rfl⟩
  · simp
  · simp

theorem Token.Kind.ne_of_not_isBracket {k : Token.Kind} (h : k.isBracket = false) :
    k ≠ .delimiter .leftBrace ∧ k ≠ .delimiter .rightBrace := by
  constructor
  · rintro rfl
    contradiction
  · rintro rfl
    contradiction

namespace PendingWords

variable {depth : Nat} {w : Word} {ws us vs rest : List Word}

theorem ne_nil (h : PendingWords depth ws) : ws ≠ [] := by
  cases h with
  | stop => exact List.cons_ne_nil _ _
  | word => exact List.cons_ne_nil _ _
  | opened => exact List.cons_ne_nil _ _
  | closed => exact List.cons_ne_nil _ _
  | group => exact List.cons_ne_nil _ _

/-- What begins what is left of a member and more ends it only at its last word. -/
theorem exists_cons (h : PendingWords depth ws) (heq : w :: us = ws ++ rest) :
    ∃ vs, ws = w :: vs ∧ us = vs ++ rest := by
  cases ws with
  | nil => exact absurd rfl h.ne_nil
  | cons w' vs =>
      obtain ⟨rfl, rfl⟩ := List.cons.inj heq
      exact ⟨vs, rfl, rfl⟩

theorem tail_plain (h : PendingWords depth (w :: ws)) (hw : w.1.isPlain = true) :
    PendingWords depth ws := by
  cases h with
  | stop hstop => simp [hstop, Token.Kind.isPlain] at hw
  | word _ _ _ h => exact h
  | opened hoc => simp [Token.Kind.isPlain, Token.Kind.isBracket_of_encloses hoc] at hw
  | closed hoc => simp [Token.Kind.isPlain, Token.Kind.isBracket_of_encloses hoc] at hw
  | group ho => simp [Token.Kind.isPlain, Token.Kind.isBracket, ho] at hw

theorem tail_opened {c : Word} (h : PendingWords depth (w :: ws)) (hw : w.1.encloses c.1 = true) :
    PendingWords (depth + 1) ws := by
  have hbracket := (Token.Kind.isBracket_of_encloses hw).1
  cases h with
  | stop hstop => simp [hstop, Token.Kind.isBracket] at hbracket
  | word hplain => simp [hplain] at hbracket
  | opened _ h => exact h
  | closed hoc => simp [Token.Kind.not_encloses_of_encloses hw] at hoc
  | group ho => exact absurd ho (Token.Kind.ne_of_opens hw).1

theorem tail_closed {o : Word} (h : PendingWords (depth + 1) (w :: ws))
    (hw : o.1.encloses w.1 = true) : PendingWords depth ws := by
  have hbracket := (Token.Kind.isBracket_of_encloses hw).2
  cases h with
  | word hplain => simp [hplain] at hbracket
  | opened hoc => simp [Token.Kind.not_encloses_of_encloses hoc] at hw
  | closed _ h => exact h
  | group ho => exact absurd ho (Token.Kind.ne_of_closes hw).1

theorem tail_group (h : PendingWords depth (w :: ws)) (hw : w.1 = .delimiter .leftBrace)
    (hus : ClosingWords 1 us) (heq : us ++ vs = ws ++ rest) :
    ∃ vs', ws = us ++ vs' ∧ vs = vs' ++ rest ∧ PendingWords depth vs' := by
  cases h with
  | stop hstop => simp [hw] at hstop
  | word hplain => simp [hw, Token.Kind.isBracket] at hplain
  | opened hoc => exact absurd hw (Token.Kind.ne_of_opens hoc).1
  | closed hoc => exact absurd hw (Token.Kind.ne_of_closes hoc).1
  | group _ hws h =>
      rw [List.append_assoc] at heq
      obtain ⟨rfl, rfl⟩ := hus.unique hws heq
      exact ⟨_, rfl, rfl, h⟩

/-- At a semicolon the member ends, or goes on in parentheses. -/
theorem tail_stop (h : PendingWords depth (w :: ws)) (hw : w.1 = .delimiter .semicolon) :
    ws = [] ∨ 0 < depth ∧ PendingWords depth ws := by
  cases h with
  | stop => exact .inl rfl
  | word _ _ hstop h => exact .inr ⟨Nat.pos_of_ne_zero fun hdepth => hstop hdepth hw, h⟩
  | opened hoc =>
      have hbracket := (Token.Kind.isBracket_of_encloses hoc).1
      simp [hw, Token.Kind.isBracket] at hbracket
  | closed hoc =>
      have hbracket := (Token.Kind.isBracket_of_encloses hoc).2
      simp [hw, Token.Kind.isBracket] at hbracket
  | group ho => simp [hw] at ho

theorem tail_loose (h : PendingWords depth (w :: ws)) (hw : w.1 ≠ .delimiter .leftBrace) :
    ws = [] ∨ ∃ depth', PendingWords depth' ws := by
  cases h with
  | stop => exact .inl rfl
  | word _ _ _ h => exact .inr ⟨_, h⟩
  | opened _ h => exact .inr ⟨_, h⟩
  | closed _ h => exact .inr ⟨_, h⟩
  | group ho => exact absurd ho hw

/-- Even words at the beginning lie within the member. -/
theorem behind_even (hpending : PendingWords depth ws) (h : EvenWords us)
    (heq : us ++ vs = ws ++ rest) :
    ∃ ws', ws = us ++ ws' ∧ vs = ws' ++ rest ∧ PendingWords depth ws' := by
  induction h generalizing depth ws vs with
  | none => exact ⟨ws, rfl, heq, hpending⟩
  | plain hw _ ih =>
      obtain ⟨ws, rfl, htail⟩ := hpending.exists_cons heq
      obtain ⟨ws', rfl, rfl, h⟩ := ih (hpending.tail_plain hw) htail
      exact ⟨ws', rfl, rfl, h⟩
  | @enclosed o c us us' hoc _ _ ihin ih =>
      rw [List.cons_append, List.append_assoc, List.cons_append] at heq
      obtain ⟨ws, rfl, htail⟩ := hpending.exists_cons heq
      obtain ⟨ws', rfl, hvs, hinside⟩ := ihin (hpending.tail_opened hoc) htail
      obtain ⟨ws', rfl, hbehind⟩ := hinside.exists_cons hvs
      obtain ⟨ws', rfl, rfl, h⟩ := ih (hinside.tail_closed hoc) hbehind
      exact ⟨ws', by simp, rfl, h⟩
  | @group o us us' ho hus _ ih =>
      rw [List.cons_append, List.append_assoc] at heq
      obtain ⟨ws, rfl, htail⟩ := hpending.exists_cons heq
      obtain ⟨ws', rfl, hvs, hbehind⟩ := hpending.tail_group ho hus htail
      obtain ⟨ws', rfl, rfl, h⟩ := ih hbehind hvs
      exact ⟨ws', by simp, rfl, h⟩

/-- A line of members at the beginning lies within the member. It ends it, or stands in parentheses
that go on. -/
theorem behind_members {n : Nat} {us' : List Word} (hpending : PendingWords depth ws)
    (h : MemberWords (NamesType StructWords) n us) (heq : us ++ us' = ws ++ rest) :
    ∃ ws', ws = us ++ ws' ∧ us' = ws' ++ rest ∧
      (ws' = [] ∨ 0 < depth ∧ PendingWords depth ws') := by
  obtain ⟨us, stop, rfl, heven, hstop⟩ :=
    h.even fun _ _ hts => hts.even fun _ => StructWords.even
  rw [List.append_assoc] at heq
  obtain ⟨ws', rfl, hvs, hbehind⟩ := hpending.behind_even heven heq
  obtain ⟨ws', rfl, hvs⟩ := hbehind.exists_cons hvs
  exact ⟨ws', by simp, by simpa using hvs, hbehind.tail_stop hstop⟩

/-- A body may begin with what is left of a member that hides its types. -/
theorem body {Names : String → List Word → Prop} {n : Nat} (h : PendingWords depth ws)
    (hhides : HidesTypes ws) (hus : BodyWords Names n us) : BodyWords Names n (ws ++ us) := by
  have hloose : ∀ {w : Word} {vs : List Word}, w.1 ≠ .delimiter .leftBrace →
      w.1 ≠ .delimiter .rightBrace → w.1 ≠ .endOfInput → HidesTypes (w :: vs) →
      (HidesTypes vs → BodyWords Names n (vs ++ us)) → BodyWords Names n (w :: vs ++ us) := by
    intro w vs hleft hright hend hhides hvs
    obtain ⟨hmember, hhides⟩ := (HidesTypes.cons_iff hleft hright).mp hhides
    have hw : w.1.isLoose = true := by simp [Token.Kind.isLoose, hmember, hleft, hright, hend]
    exact .loose hw (hvs hhides)
  induction h with
  | stop hw =>
      exact hloose (by simp [hw]) (by simp [hw]) (by simp [hw]) hhides fun _ => hus
  | word hbracket hend _ _ ih =>
      obtain ⟨hleft, hright⟩ := Token.Kind.ne_of_not_isBracket hbracket
      exact hloose hleft hright hend hhides ih
  | opened hoc _ ih =>
      obtain ⟨hleft, hright, hend⟩ := Token.Kind.ne_of_opens hoc
      exact hloose hleft hright hend hhides ih
  | closed hoc _ ih =>
      obtain ⟨hleft, hright, hend⟩ := Token.Kind.ne_of_closes hoc
      exact hloose hleft hright hend hhides ih
  | group ho hws _ ih =>
      rw [List.cons_append, List.append_assoc]
      exact .group ho hws (ih ((HidesTypes.group_iff ho hws).mp hhides))

/-- A body that begins with what is left of a member goes on behind it as a body. Declarators are
found in it exactly where it does not hide its types. -/
theorem behind_body {n : Nat} (h : BodyWords (NamesType StructWords) n vs)
    (hpending : PendingWords depth ws) (heq : vs = ws ++ us) :
    ∃ i j, n = i + j ∧ BodyWords (NamesType StructWords) j us ∧ (i = 0 ↔ HidesTypes ws) := by
  induction h generalizing depth ws with
  | none =>
      obtain ⟨rfl, -⟩ := List.nil_eq_append_iff.mp heq
      exact absurd rfl hpending.ne_nil
  | @members m n vs vs' hmembers hbody ih =>
      obtain ⟨ws', rfl, rfl, hbehind⟩ := hpending.behind_members hmembers heq
      obtain ⟨hshown, hsome⟩ := hmembers.not_hidesTypes ws'
      rcases hbehind with rfl | ⟨-, hbehind⟩
      · exact ⟨m, n, rfl, hbody, iff_of_false hsome hshown⟩
      · obtain ⟨i, j, rfl, hus, -⟩ := ih hbehind rfl
        exact ⟨m + i, j, by omega, hus, iff_of_false (by omega) hshown⟩
  | @group n o vs vs' ho hvs hbody ih =>
      obtain ⟨ws, rfl, htail⟩ := hpending.exists_cons heq
      obtain ⟨ws', rfl, rfl, hbehind⟩ := hpending.tail_group ho hvs htail
      obtain ⟨i, j, rfl, hus, hi⟩ := ih hbehind rfl
      exact ⟨i, j, rfl, hus, hi.trans (HidesTypes.group_iff ho hvs).symm⟩
  | @loose n w vs hw hbody ih =>
      obtain ⟨ws, rfl, rfl⟩ := hpending.exists_cons heq
      simp only [Token.Kind.isLoose, Bool.and_eq_true, Bool.not_eq_true', bne_iff_ne] at hw
      obtain ⟨⟨⟨hmember, hleft⟩, hright⟩, -⟩ := hw
      rw [HidesTypes.cons_iff hleft hright]
      rcases hpending.tail_loose hleft with rfl | ⟨depth', hbehind⟩
      · exact ⟨0, n, by omega, hbody, by simp [hmember, HidesTypes, outsideBraces]⟩
      · obtain ⟨i, j, rfl, hus, hi⟩ := ih hbehind rfl
        exact ⟨i, j, rfl, hus, by simp [hi, hmember]⟩

end PendingWords

/-! ## Whole bodies -/

theorem ClosingWords.ne_endOfInput {depth : Nat} {ws : List Word} (h : ClosingWords depth ws) :
    ∀ w ∈ ws, w.1 ≠ .endOfInput := by
  induction h with
  | done => simp
  | opened hw _ ih => exact List.forall_mem_cons.mpr ⟨by simp [hw], ih⟩
  | closed hw _ ih => exact List.forall_mem_cons.mpr ⟨by simp [hw], ih⟩
  | inside _ _ hend _ ih => exact List.forall_mem_cons.mpr ⟨hend, ih⟩

theorem PendingWords.ne_endOfInput {depth : Nat} {ws : List Word} (h : PendingWords depth ws) :
    ∀ w ∈ ws, w.1 ≠ .endOfInput := by
  induction h with
  | stop hw => simp [hw]
  | word _ hend _ _ ih => exact List.forall_mem_cons.mpr ⟨hend, ih⟩
  | opened hoc _ ih => exact List.forall_mem_cons.mpr ⟨(Token.Kind.ne_of_opens hoc).2.2, ih⟩
  | closed hoc _ ih => exact List.forall_mem_cons.mpr ⟨(Token.Kind.ne_of_closes hoc).2.2, ih⟩
  | group hw hws _ ih =>
      refine List.forall_mem_cons.mpr ⟨by simp [hw], List.forall_mem_append.mpr ⟨?_, ih⟩⟩
      exact hws.ne_endOfInput

theorem MemberWords.pending {n : Nat} {ws : List Word}
    (h : MemberWords (NamesType StructWords) n ws) : PendingWords 0 ws := by
  obtain ⟨us, stop, rfl, heven, hstop⟩ :=
    h.even fun _ _ hts => hts.even fun _ => StructWords.even
  exact heven.pending (.stop hstop)

theorem MembersWords.ne_endOfInput {n : Nat} {skipped : List (List Word)} {ws : List Word}
    (h : MembersWords n skipped ws) : ∀ w ∈ ws, w.1 ≠ .endOfInput := by
  induction h with
  | none => simp
  | kept hmembers _ ih => exact List.forall_mem_append.mpr ⟨hmembers.pending.ne_endOfInput, ih⟩
  | skipped hskipped _ ih => exact List.forall_mem_append.mpr ⟨hskipped.pending.ne_endOfInput, ih⟩

/-- Members of which the skipped ones hide their types are a body with the declarators of the kept
ones. -/
theorem MembersWords.body {n : Nat} {skipped : List (List Word)} {ws : List Word}
    (h : MembersWords n skipped ws) (hhides : ∀ vs ∈ skipped, HidesTypes vs) :
    BodyWords (NamesType StructWords) n ws := by
  induction h with
  | none => exact .none
  | kept hmembers _ ih => exact .members hmembers (ih hhides)
  | skipped hskipped _ ih =>
      obtain ⟨hfirst, hhides⟩ := List.forall_mem_cons.mp hhides
      exact hskipped.pending.body hfirst (ih hhides)

/-- A body that begins with a line of members is that line and a body. -/
theorem BodyWords.behind_members {m n : Nat} {vs ws us : List Word}
    (h : BodyWords (NamesType StructWords) n vs) (hws : MemberWords (NamesType StructWords) m ws)
    (heq : vs = ws ++ us) :
    ∃ m' j, n = m' + j ∧ MemberWords (NamesType StructWords) m' ws ∧
      BodyWords (NamesType StructWords) j us := by
  obtain ⟨w, hw, hhead⟩ : ∃ w, w.1.isMemberType = true ∧ ∃ vs, ws = w :: vs := by
    obtain ⟨hbase, -, -, -, -⟩ := hws
    exact ⟨_, hbase, _, rfl⟩
  obtain ⟨ws', rfl⟩ := hhead
  cases h with
  | none => simp at heq
  | members hmembers hbody =>
      obtain ⟨vs', hvs, rfl, hbehind⟩ := hws.pending.behind_members hmembers heq
      obtain rfl : vs' = [] := hbehind.resolve_right fun hpos => absurd hpos.1 (Nat.lt_irrefl 0)
      rw [hvs, List.append_nil]
      exact ⟨_, _, rfl, hmembers, hbody⟩
  | group ho =>
      obtain ⟨rfl, -⟩ := List.cons.inj heq
      rw [ho] at hw
      contradiction
  | loose hloose =>
      obtain ⟨rfl, -⟩ := List.cons.inj heq
      simp [Token.Kind.isLoose, hw] at hloose

namespace Grammar

variable {s : State} {ws rest : List Word}

/-- A state stands before any last part of its words. -/
theorem State.exists_past (h : s.script = ws ++ rest) : ∃ v, s.Past rest 0 v := by
  induction ws generalizing s with
  | nil => exact ⟨s, .refl h⟩
  | cons w ws ih =>
      obtain ⟨v, hpast⟩ := ih (s.script_dropFront h)
      exact ⟨v, (State.Past.dropFront h).trans hpast⟩

/-- Words of a file are a line of members with so many declarators at most in one way. -/
theorem memberWords_unique {m n : Nat} (hs : s.script = ws ++ rest)
    (hm : MemberWords (NamesType StructWords) m ws)
    (hn : MemberWords (NamesType StructWords) n ws) : m = n := by
  let v := s.limited (s.depth + ws.length)
  have hv : v.script = ws ++ rest := hs
  obtain ⟨found, u, hfound, rfl, -⟩ :=
    structMembers_of_script (readsBodies (ws.length + 1)) hm hv (Nat.le_succ _) (Nat.le_refl _)
  obtain ⟨found', u', hfound', rfl, -⟩ :=
    structMembers_of_script (readsBodies (ws.length + 1)) hn hv (Nat.le_succ _) (Nat.le_refl _)
  obtain ⟨rfl, -⟩ := EStateM.Result.ok.inj (hfound.symm.trans hfound')
  rfl

/-- Where members are a body with the declarators of the kept ones, the skipped ones hide their
types. -/
theorem hidesTypes_of_body {total n : Nat} {skipped : List (List Word)}
    (h : MembersWords total skipped ws) (hbody : BodyWords (NamesType StructWords) n ws)
    (hs : s.script = ws ++ rest) :
    total ≤ n ∧ (n = total → ∀ vs ∈ skipped, HidesTypes vs) := by
  induction h generalizing s n with
  | none => exact ⟨Nat.zero_le _, by simp⟩
  | @kept m total skipped ws us hmembers hmore ih =>
      rw [List.append_assoc] at hs
      obtain ⟨v, hpast⟩ := State.exists_past hs
      obtain ⟨m', j, rfl, hmembers', hus⟩ := hbody.behind_members hmembers rfl
      obtain rfl := memberWords_unique hs hmembers hmembers'
      obtain ⟨hle, hhides⟩ := ih hus hpast.script
      exact ⟨by omega, fun heq => hhides (by omega)⟩
  | @skipped total skipped ws us hskipped hmore ih =>
      rw [List.append_assoc] at hs
      obtain ⟨v, hpast⟩ := State.exists_past hs
      obtain ⟨i, j, rfl, hus, hi⟩ := hskipped.pending.behind_body hbody rfl
      obtain ⟨hle, hhides⟩ := ih hus hpast.script
      refine ⟨by omega, fun heq => ?_⟩
      obtain rfl : i = 0 := by omega
      exact List.forall_mem_cons.mpr ⟨hi.mp rfl, hhides (by omega)⟩

/-! ## Struct definitions -/

section Definitions

variable {levels total : Nat} {k tag o c : Word} {skipped : List (List Word)}

/-- A struct that is read up to its closing brace is a body of so many declarators. -/
theorem structSpecifier_body {node : Node} {v : State}
    (hend : ∀ w ∈ ws, w.1 ≠ .endOfInput) (ho : o.1 = .delimiter .leftBrace)
    (hs : s.script = k :: tag :: o :: (ws ++ c :: rest)) (hv : v.script = rest)
    (h : structSpecifier (.level levels) s = .ok node v) :
    BodyWords (NamesType StructWords) node.children.length ws := by
  have hdrop := s.script_dropFront hs
  have hdrop' := s.dropFront.script_dropFront hdrop
  have hdrop'' := s.dropFront.dropFront.script_dropFront hdrop'
  obtain ⟨keyword, u, hkeyword, h⟩ := bind_eq_ok.mp h
  obtain ⟨rfl, rfl⟩ := takeFront_eq_ok.mp hkeyword
  obtain ⟨kind, u, hkind, h⟩ := bind_eq_ok.mp h
  obtain ⟨rfl, rfl⟩ := frontKind_eq_ok.mp hkind
  split at h
  · obtain ⟨tag, u, htag, h⟩ := bind_eq_ok.mp h
    obtain ⟨rfl, rfl⟩ := takeFront_eq_ok.mp htag
    obtain ⟨b, u, haccept, h⟩ := bind_eq_ok.mp h
    rcases accept_eq_ok.mp haccept with ⟨-, rfl, rfl⟩ | ⟨hnone, rfl, rfl⟩
    · obtain ⟨members, u, hmembers, h⟩ := bind_eq_ok.mp h
      obtain ⟨close, u', hclose, h⟩ := bind_eq_ok.mp h
      obtain ⟨rfl, rfl⟩ := pure_eq_ok.mp h
      obtain ⟨hright, rfl, rfl⟩ := require_eq_ok.mp hclose
      obtain ⟨ws', hws', hbody⟩ := structBody_spans (Rules.level_soundWithin levels) hmembers hright
      rw [State.script_of_front (s := u) (by simp [hright]), hv, hdrop''] at hws'
      obtain ⟨rfl, -⟩ := List.append_inj' hws' (by simp)
      exact (hbody hend).mono (fun _ _ => Unended.namesType) hend
    · rw [front_kind_of_script hdrop', headKind_cons, ho] at hnone
      contradiction
  · simp [failFound] at h

/-- A struct definition whose body is a sequence of members is read with the declarators of the
kept ones as its members if and only if no skipped one shows a word of a supported type outside all
braces and nesting is not too deep. Where the limit leaves room for all words of the body, nesting
plays no part. -/
theorem structSpecifier_members_iff (h : MembersWords total skipped ws)
    (htag : tag.1 = .identifier) (ho : o.1 = .delimiter .leftBrace)
    (hc : c.1 = .delimiter .rightBrace) (hs : s.script = k :: tag :: o :: (ws ++ c :: rest))
    (hlevels : ws.length < levels) :
    let reader := structSpecifier (.level levels)
    let right := ∃ node v, reader s = .ok node v ∧ node.structEntry = ⟨tag.2, total⟩ ∧
      v.script = rest
    (right ↔ (∀ vs ∈ skipped, HidesTypes vs) ∧ ¬TooDeep reader s) ∧
      (s.depth + ws.length ≤ s.limit → (right ↔ ∀ vs ∈ skipped, HidesTypes vs)) := by
  intro reader right
  obtain ⟨m, rfl⟩ : ∃ m, levels = m + 1 := ⟨levels - 1, by omega⟩
  have hhides : right → ∀ vs ∈ skipped, HidesTypes vs := by
    rintro ⟨node, v, hnode, hentry, hv⟩
    have hbody := structSpecifier_body h.ne_endOfInput ho hs hv hnode
    have hs' : s.script = [k, tag, o] ++ (ws ++ c :: rest) := hs
    obtain ⟨u, hpast⟩ := State.exists_past hs'
    have hcount : node.children.length = total := congrArg StructEntry.memberCount hentry
    exact (hidesTypes_of_body h hbody hpast.script).2 hcount
  have hright : ∀ n, (∀ vs ∈ skipped, HidesTypes vs) → s.depth + ws.length ≤ n →
      ∃ members v, reader (s.limited n) =
          .ok (.texted .structDefinition tag.2 s.front.location members) v ∧
        members.length = total ∧ v.script = rest := by
    intro n hhides hroom
    obtain ⟨members, v, hnode, hcount, hpast⟩ := structSpecifier_of_body (readsBodies (m + 1))
      (s := s.limited n) (h.body hhides) htag ho hc hs (by omega) hroom
    exact ⟨members, v, hnode, hcount, hpast.script⟩
  refine ⟨⟨fun hread => ⟨hhides hread, ?_⟩, ?_⟩, fun hroom => ⟨hhides, fun hhidden => ?_⟩⟩
  · rintro ⟨place, failed, hdeep⟩
    obtain ⟨node, v, hnode, -⟩ := hread
    rw [hnode] at hdeep
    contradiction
  · rintro ⟨hhidden, hdeep⟩
    obtain ⟨members, v, hnode, hcount, hv⟩ :=
      hright (max s.limit (s.depth + ws.length)) hhidden (Nat.le_max_right _ _)
    have hcomposed := (Composed.structSpecifier (Rules.level_composed (m + 1))).toTrue
    rcases hcomposed.ok_or_tooDeep (Nat.le_max_left _ _) hnode with hok | hfail
    · exact ⟨_, _, hok, by rw [← hcount]; rfl, hv⟩
    · exact absurd hfail hdeep
  · obtain ⟨members, v, hnode, hcount, hv⟩ := hright s.limit hhidden hroom
    exact ⟨_, v, hnode, by rw [← hcount]; rfl, hv⟩

end Definitions

/-- A member in braces is skipped with all it holds, and one without them if it names no supported
type. -/
theorem structSpecifier_members_union :
    let tokens : List Token := [⟨.keyword .structKw, "struct", ⟨1, 1⟩⟩,
      ⟨.identifier, "A", ⟨1, 8⟩⟩, ⟨.delimiter .leftBrace, "\x7b", ⟨1, 10⟩⟩,
      ⟨.keyword .intKw, "int", ⟨1, 12⟩⟩, ⟨.identifier, "x", ⟨1, 16⟩⟩,
      ⟨.delimiter .semicolon, ";", ⟨1, 17⟩⟩, ⟨.identifier, "union", ⟨1, 19⟩⟩,
      ⟨.delimiter .leftBrace, "\x7b", ⟨1, 25⟩⟩, ⟨.keyword .intKw, "int", ⟨1, 27⟩⟩,
      ⟨.identifier, "y", ⟨1, 31⟩⟩, ⟨.delimiter .semicolon, ";", ⟨1, 32⟩⟩,
      ⟨.delimiter .rightBrace, "\x7d", ⟨1, 34⟩⟩, ⟨.identifier, "u", ⟨1, 36⟩⟩,
      ⟨.delimiter .semicolon, ";", ⟨1, 37⟩⟩, ⟨.delimiter .rightBrace, "\x7d", ⟨1, 39⟩⟩]
    let s := State.ofTokens tokens 48
    let skipped := ((tokens.drop 6).take 8).map Token.word
    MembersWords 1 [skipped] (((tokens.drop 3).take 11).map Token.word) ∧ HidesTypes skipped ∧
      ∃ node v, structSpecifier (.forTokens tokens) s = .ok node v ∧
        node.structEntry = ⟨"A", 1⟩ ∧ v.script = [] := by
  intro tokens s skipped
  have hdeclarators : Separated [[(.identifier, "x")]] [(.identifier, "x")] := .one _
  have hkept : MemberWords (NamesType StructWords) 1
      [(.keyword .intKw, "int"), (.identifier, "x"), (.delimiter .semicolon, ";")] :=
    .intro rfl (by simp) (by simpa using .object .none rfl .none) hdeclarators rfl
  have hinside : NestedWords true ((skipped.drop 2).take 3) :=
    .word rfl (by decide) (by decide) (.word rfl (by decide) (by decide)
      (.word rfl (by decide) (by decide) .none))
  have hgroup : NestedWords false (skipped.take 7) :=
    .word rfl (by decide) (by decide)
      (.braced rfl rfl hinside (.word rfl (by decide) (by decide) .none))
  have hskipped : SkippedWords skipped := .intro hgroup rfl rfl
  have hmembers : MembersWords 1 [skipped] (((tokens.drop 3).take 11).map Token.word) :=
    .kept hkept (.skipped hskipped .none)
  have hhides : HidesTypes skipped := by decide
  have hs : s.script = (.keyword .structKw, "struct") :: (.identifier, "A") ::
      (.delimiter .leftBrace, "\x7b") :: (((tokens.drop 3).take 11).map Token.word ++
        (.delimiter .rightBrace, "\x7d") :: []) := by decide
  have hlength : (((tokens.drop 3).take 11).map Token.word).length < 32 := by decide
  have hread := (structSpecifier_members_iff hmembers rfl rfl rfl hs hlength).2 (by decide)
  exact ⟨hmembers, hhides, hread.mpr (by simpa using hhides)⟩

/-- The second word of an unsupported type opens a member of its own. -/
theorem structSpecifier_members_unsigned :
    let tokens : List Token := [⟨.keyword .structKw, "struct", ⟨1, 1⟩⟩,
      ⟨.identifier, "A", ⟨1, 8⟩⟩, ⟨.delimiter .leftBrace, "\x7b", ⟨1, 10⟩⟩,
      ⟨.keyword .unsignedKw, "unsigned", ⟨1, 12⟩⟩, ⟨.keyword .intKw, "int", ⟨1, 21⟩⟩,
      ⟨.identifier, "x", ⟨1, 25⟩⟩, ⟨.delimiter .semicolon, ";", ⟨1, 26⟩⟩,
      ⟨.delimiter .rightBrace, "\x7d", ⟨1, 28⟩⟩, ⟨.delimiter .semicolon, ";", ⟨1, 29⟩⟩]
    let skipped := ((tokens.drop 3).take 4).map Token.word
    MembersWords 0 [skipped] skipped ∧ ¬HidesTypes skipped ∧
      ((parse tokens ⟨48, true⟩).root.children.map Node.structEntry) = [⟨"A", 1⟩] := by
  intro tokens skipped
  have hskipped : NestedWords false (skipped.take 3) :=
    .word rfl (by decide) (by decide) (.word rfl (by decide) (by decide)
      (.word rfl (by decide) (by decide) .none))
  have hmember : SkippedWords skipped := .intro hskipped rfl rfl
  exact ⟨.skipped hmember .none, by decide, by decide +kernel⟩

end Grammar

end CSurvey
