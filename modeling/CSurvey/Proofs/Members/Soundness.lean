import CSurvey.Proofs.Expression.Soundness
import CSurvey.Proofs.Grammar.Runs
import CSurvey.Proofs.Members.Brackets

/-! # What is read between the braces of a struct

A successful reading of a declarator, of a line of members or of a struct body has taken words of
the grammar. An expression may name such structs, so the same holds of all expressions. -/

namespace CSurvey

/-! ## Words put together -/

theorem PointerWords.append {ws us : List Word} (hws : PointerWords ws) (hus : PointerWords us) :
    PointerWords (ws ++ us) := by
  induction hws with
  | none => exact hus
  | star hw hqualifiers _ ih =>
      rw [List.cons_append, List.append_assoc]
      exact .star hw hqualifiers ih

theorem SizeWords.append {Names : String → List Word → Prop} {ws us : List Word}
    (hws : SizeWords Names ws) (hus : SizeWords Names us) : SizeWords Names (ws ++ us) := by
  induction hws with
  | none => exact hus
  | absent ho hc _ ih => exact .absent ho hc ih
  | size ho hc hes _ ih =>
      rw [List.cons_append, List.append_assoc, List.cons_append]
      exact .size ho hc hes ih

theorem SizeWords.single {Names : String → List Word → Prop} {o c : Word} {e : Node}
    {es : List Word} (ho : o.1 = .delimiter .leftBracket) (hc : c.1 = .delimiter .rightBracket)
    (hes : Derives Names .expression e es) : SizeWords Names (o :: (es ++ [c])) :=
  .size ho hc hes .none

theorem BodyWords.append {Names : String → List Word → Prop} {m n : Nat} {ws us : List Word}
    (hws : BodyWords Names m ws) (hus : BodyWords Names n us) :
    BodyWords Names (m + n) (ws ++ us) := by
  induction hws with
  | none => simpa using hus
  | members h _ ih =>
      rw [List.append_assoc, Nat.add_assoc]
      exact .members h ih
  | group ho hwords _ ih =>
      rw [List.cons_append, List.append_assoc]
      exact .group ho hwords ih
  | loose hw _ ih => exact .loose hw ih

namespace Grammar

/-- Words of the given form lie between the states. -/
def State.Spans (s : State) (P : List Word → Prop) (t : State) : Prop :=
  ∃ ws, s.script = ws ++ t.script ∧ P ws

namespace State.Spans

variable {s t u : State} {P Q R : List Word → Prop}

theorem refl (h : P []) : s.Spans P s :=
  ⟨[], rfl, h⟩

theorem front (hs : s.front.kind ≠ .endOfInput) (h : P [s.front.word]) : s.Spans P s.dropFront :=
  ⟨[s.front.word], State.script_of_front hs, h⟩

theorem trans (h : s.Spans P t) (h' : t.Spans Q u) (hpq : ∀ ⦃ws vs⦄, P ws → Q vs → R (ws ++ vs)) :
    s.Spans R u := by
  obtain ⟨ws, hs, hws⟩ := h
  obtain ⟨vs, ht, hvs⟩ := h'
  exact ⟨ws ++ vs, by rw [hs, ht, List.append_assoc], hpq hws hvs⟩

theorem mono (h : s.Spans P t) (hpq : ∀ ⦃ws⦄, P ws → Q ws) : s.Spans Q t := by
  obtain ⟨ws, hs, hws⟩ := h
  exact ⟨ws, hs, hpq hws⟩

end State.Spans

section Declarators

variable {Body : List Word → Prop} {r : Rules} {s t : State}

/-! ## Declarators -/

theorem skipQualifiers_spans {x : Unit} (h : skipQualifiers s = .ok x t) :
    s.Spans (fun ws => ∀ q ∈ ws, q.1.isQualifier = true) t := by
  let spans : Unit → State → Prop := fun _ v =>
    s.Spans (fun ws => ∀ q ∈ ws, q.1.isQualifier = true) v
  refine loop_ok (I := spans) (D := spans) ?_ (.refl (by simp)) h
  rintro _ v turn w hv hturn
  obtain ⟨kind, x, hkind, hturn⟩ := bind_eq_ok.mp hturn
  obtain ⟨hk, rfl⟩ := frontKind_eq_ok.mp hkind
  have htake : kind.isQualifier = true → kind ≠ .endOfInput → spans () v.dropFront := by
    intro hqualifier hend
    refine hv.trans (.front (P := (· = [v.front.word])) (by rwa [hk]) rfl) ?_
    rintro ws _ hws rfl
    have hall : ∀ q ∈ [v.front.word], q.1.isQualifier = true := by simpa [hk] using hqualifier
    exact fun q hq => (List.mem_append.mp hq).elim (hws q) (hall q)
  split at hturn
  · obtain ⟨token, x, htoken, hturn⟩ := bind_eq_ok.mp hturn
    obtain ⟨rfl, rfl⟩ := takeFront_eq_ok.mp htoken
    obtain ⟨rfl, rfl⟩ := pure_eq_ok.mp hturn
    exact htake rfl (by simp)
  · obtain ⟨token, x, htoken, hturn⟩ := bind_eq_ok.mp hturn
    obtain ⟨rfl, rfl⟩ := takeFront_eq_ok.mp htoken
    obtain ⟨rfl, rfl⟩ := pure_eq_ok.mp hturn
    exact htake rfl (by simp)
  · obtain ⟨rfl, rfl⟩ := pure_eq_ok.mp hturn
    exact hv

theorem pointers_spans {n : Nat} (h : pointers s = .ok n t) : s.Spans PointerWords t := by
  let spans : Nat → State → Prop := fun _ v => s.Spans PointerWords v
  refine loop_ok (I := spans) (D := spans) ?_ (.refl .none) h
  rintro n v turn w hv hturn
  obtain ⟨b, x, haccept, hturn⟩ := bind_eq_ok.mp hturn
  rcases accept_eq_ok.mp haccept with ⟨hstar, rfl, rfl⟩ | ⟨-, rfl, rfl⟩
  · obtain ⟨_, y, hqualifiers, hturn⟩ := bind_eq_ok.mp hturn
    obtain ⟨rfl, rfl⟩ := pure_eq_ok.mp hturn
    have hfront : v.Spans (· = [v.front.word]) v.dropFront := .front (by simp [hstar]) rfl
    have hone : v.Spans PointerWords y := by
      refine hfront.trans (skipQualifiers_spans hqualifiers) ?_
      rintro _ qualifiers rfl hall
      simpa using PointerWords.star (w := v.front.word) hstar hall .none
    exact hv.trans hone fun _ _ => PointerWords.append
  · obtain ⟨rfl, rfl⟩ := pure_eq_ok.mp hturn
    exact hv

theorem arraySize_spans (hr : r.Sound Body) {size : Node}
    (hs : s.front.kind = .delimiter .leftBracket) (h : arraySize r s = .ok size t) :
    s.Spans (SizeWords (NamesType Body)) t := by
  obtain ⟨bracket, u, hbracket, h⟩ := bind_eq_ok.mp h
  obtain ⟨rfl, rfl⟩ := takeFront_eq_ok.mp hbracket
  have hfront := State.script_of_front (s := s) (by simp [hs])
  obtain ⟨b, u, haccept, h⟩ := bind_eq_ok.mp h
  rcases accept_eq_ok.mp haccept with ⟨hclose, rfl, rfl⟩ | ⟨-, rfl, rfl⟩
  · obtain ⟨rfl, rfl⟩ := pure_eq_ok.mp h
    refine ⟨[s.front.word, s.dropFront.front.word], ?_, .absent hs hclose .none⟩
    rw [hfront, State.script_of_front (s := s.dropFront) (by simp [hclose])]
    rfl
  · obtain ⟨e, u, he, h⟩ := bind_eq_ok.mp h
    obtain ⟨close, v, hclose, h⟩ := bind_eq_ok.mp h
    obtain ⟨hc, rfl, rfl⟩ := require_eq_ok.mp hclose
    obtain ⟨rfl, rfl⟩ := pure_eq_ok.mp h
    obtain ⟨es, hu, hes⟩ := hr.expression he
    refine ⟨s.front.word :: (es ++ [u.front.word]), ?_, .single hs hc hes⟩
    rw [hfront, hu, State.script_of_front (s := u) (by simp [hc])]
    simp

theorem arraySizes_spans (hr : r.Sound Body) {sizes : List Node}
    (h : arraySizes r s = .ok sizes t) : s.Spans (SizeWords (NamesType Body)) t := by
  obtain ⟨found, u, hfound, h⟩ := bind_eq_ok.mp h
  obtain ⟨rfl, rfl⟩ := pure_eq_ok.mp h
  let spans : List Node → State → Prop := fun _ v => s.Spans (SizeWords (NamesType Body)) v
  refine loop_ok (I := spans) (D := spans) ?_ (.refl .none) hfound
  rintro sizes v turn w hv hturn
  obtain ⟨kind, x, hkind, hturn⟩ := bind_eq_ok.mp hturn
  obtain ⟨hk, rfl⟩ := frontKind_eq_ok.mp hkind
  split at hturn
  · rename_i hbracket
    obtain ⟨size, y, hsize, hturn⟩ := bind_eq_ok.mp hturn
    obtain ⟨rfl, rfl⟩ := pure_eq_ok.mp hturn
    exact hv.trans (arraySize_spans hr (hk.trans hbracket) hsize) fun _ _ => SizeWords.append
  · obtain ⟨rfl, rfl⟩ := pure_eq_ok.mp hturn
    exact hv

theorem parameterSizes_spans (hr : r.Sound Body) {type type' : String}
    (h : parameterSizes r type s = .ok type' t) : s.Spans (SizeWords (NamesType Body)) t := by
  let spans : String → State → Prop := fun _ v => s.Spans (SizeWords (NamesType Body)) v
  refine loop_ok (I := spans) (D := spans) ?_ (.refl .none) h
  rintro type v turn w hv hturn
  obtain ⟨b, x, haccept, hturn⟩ := bind_eq_ok.mp hturn
  rcases accept_eq_ok.mp haccept with ⟨ho, rfl, rfl⟩ | ⟨-, rfl, rfl⟩
  · obtain ⟨kind, x, hkind, hturn⟩ := bind_eq_ok.mp hturn
    obtain ⟨rfl, rfl⟩ := frontKind_eq_ok.mp hkind
    have hfront := State.script_of_front (s := v) (by simp [ho])
    have hone : ∃ type', turn = .again type' ∧ v.Spans (SizeWords (NamesType Body)) w := by
      split at hturn
      · obtain ⟨size, y, hsize, hturn⟩ := bind_eq_ok.mp hturn
        obtain ⟨rfl, rfl⟩ := pure_eq_ok.mp hsize
        obtain ⟨close, y, hclose, hturn⟩ := bind_eq_ok.mp hturn
        obtain ⟨hc, rfl, rfl⟩ := require_eq_ok.mp hclose
        obtain ⟨rfl, rfl⟩ := pure_eq_ok.mp hturn
        refine ⟨_, rfl, [v.front.word, v.dropFront.front.word], ?_, .absent ho hc .none⟩
        rw [hfront, State.script_of_front (s := v.dropFront) (by simp [hc])]
        rfl
      · obtain ⟨e, y, he, hturn⟩ := bind_eq_ok.mp hturn
        obtain ⟨size, z, hsize, hturn⟩ := bind_eq_ok.mp hturn
        obtain ⟨rfl, rfl⟩ := pure_eq_ok.mp hsize
        obtain ⟨close, z, hclose, hturn⟩ := bind_eq_ok.mp hturn
        obtain ⟨hc, rfl, rfl⟩ := require_eq_ok.mp hclose
        obtain ⟨rfl, rfl⟩ := pure_eq_ok.mp hturn
        obtain ⟨es, hes, hd⟩ := hr.expression he
        refine ⟨_, rfl, v.front.word :: (es ++ [y.front.word]), ?_, .single ho hc hd⟩
        rw [hfront, hes, State.script_of_front (s := y) (by simp [hc])]
        simp
    obtain ⟨type', rfl, hone⟩ := hone
    exact hv.trans hone fun _ _ => SizeWords.append
  · obtain ⟨rfl, rfl⟩ := pure_eq_ok.mp hturn
    exact hv

theorem parameter_spans (hr : r.Sound Body) {node : Node} (h : parameter r s = .ok node t) :
    s.Spans (ParameterWords (NamesType Body)) t := by
  obtain ⟨location, u, hhere, h⟩ := bind_eq_ok.mp h
  obtain ⟨-, rfl⟩ := EStateM.Result.ok.inj hhere
  obtain ⟨kind, u, hkind, h⟩ := bind_eq_ok.mp h
  obtain ⟨rfl, rfl⟩ := frontKind_eq_ok.mp hkind
  split at h
  · obtain ⟨type, u, htype, h⟩ := bind_eq_ok.mp h
    obtain ⟨name, v, hname, h⟩ := bind_eq_ok.mp h
    obtain ⟨type', w, hsizes, h⟩ := bind_eq_ok.mp h
    obtain ⟨rfl, rfl⟩ := pure_eq_ok.mp h
    have htypes : s.Spans (NamesType Body type) u := typeName_words hr.structSpecifier htype
    have hsizes := parameterSizes_spans hr hsizes
    obtain ⟨kind, x, hkind, hname⟩ := bind_eq_ok.mp hname
    obtain ⟨rfl, rfl⟩ := frontKind_eq_ok.mp hkind
    split at hname
    · rename_i hidentifier
      obtain ⟨token, x, htoken, hname⟩ := bind_eq_ok.mp hname
      obtain ⟨rfl, rfl⟩ := takeFront_eq_ok.mp htoken
      obtain ⟨rfl, rfl⟩ := pure_eq_ok.mp hname
      have hfront : u.Spans (· = [u.front.word]) u.dropFront :=
        .front (by simp [hidentifier]) rfl
      have hnamed : u.Spans (fun ws => ∃ vs, ws = u.front.word :: vs ∧
          SizeWords (NamesType Body) vs) w := by
        refine hfront.trans hsizes ?_
        rintro _ vs rfl hvs
        exact ⟨vs, rfl, hvs⟩
      refine htypes.trans hnamed ?_
      rintro ts _ hts ⟨vs, rfl, hvs⟩
      exact .named hts hidentifier hvs
    · obtain ⟨rfl, rfl⟩ := pure_eq_ok.mp hname
      exact htypes.trans hsizes fun _ _ => .unnamed
  · simp [failFound] at h

/-- The word taken by a token that has to be there. -/
theorem require_spans {k : Token.Kind} {place : Place} {token : Token} (hk : k ≠ .endOfInput)
    (h : require k place s = .ok token t) : s.Spans (fun ws => ∃ w, ws = [w] ∧ w.1 = k) t := by
  obtain ⟨hs, rfl, rfl⟩ := require_eq_ok.mp h
  exact .front (by rwa [hs]) ⟨s.front.word, rfl, hs⟩

theorem ellipsis_spans {node : Node} (h : ellipsis s = .ok node t) :
    s.Spans (ParametersWords (NamesType Body)) t := by
  obtain ⟨location, u, hhere, h⟩ := bind_eq_ok.mp h
  obtain ⟨-, rfl⟩ := EStateM.Result.ok.inj hhere
  obtain ⟨first, u, ha, h⟩ := bind_eq_ok.mp h
  obtain ⟨second, v, hb, h⟩ := bind_eq_ok.mp h
  obtain ⟨third, w, hc, h⟩ := bind_eq_ok.mp h
  obtain ⟨rfl, rfl⟩ := pure_eq_ok.mp h
  have hdots := (require_spans (by simp) hb).trans (require_spans (by simp) hc)
    (R := fun ws => ∃ b c, ws = [b, c] ∧ b.1 = .delimiter .dot ∧ c.1 = .delimiter .dot) (by
      rintro _ _ ⟨b, rfl, hb⟩ ⟨c, rfl, hc⟩
      exact ⟨b, c, rfl, hb, hc⟩)
  refine (require_spans (by simp) ha).trans hdots ?_
  rintro _ _ ⟨a, rfl, ha⟩ ⟨b, c, rfl, hb, hc⟩
  exact .further ha hb hc

/-- Between the states stand parameters with a comma behind each of them. -/
def ReadsParameters (Body : List Word → Prop) (s t : State) : Prop :=
  s.Spans (fun ws => ∀ us, ParametersWords (NamesType Body) us →
    ParametersWords (NamesType Body) (ws ++ us)) t

theorem parameters_spans (hr : r.Sound Body) {params : List Node}
    (h : parameters r s = .ok params t) : s.Spans (ParametersWords (NamesType Body)) t := by
  obtain ⟨found, u, hfound, h⟩ := bind_eq_ok.mp h
  obtain ⟨rfl, rfl⟩ := pure_eq_ok.mp h
  refine loop_ok (I := fun _ v => ReadsParameters Body s v)
    (D := fun _ v => s.Spans (ParametersWords (NamesType Body)) v) ?_
    (.refl fun _ h => h) hfound
  rintro found v turn w hv hturn
  obtain ⟨kind, x, hkind, hturn⟩ := bind_eq_ok.mp hturn
  obtain ⟨hk, rfl⟩ := frontKind_eq_ok.mp hkind
  split at hturn
  · obtain ⟨last, y, hlast, hturn⟩ := bind_eq_ok.mp hturn
    obtain ⟨rfl, rfl⟩ := pure_eq_ok.mp hturn
    exact hv.trans (ellipsis_spans hlast) fun _ _ hws => hws _
  · obtain ⟨next, y, hnext, hturn⟩ := bind_eq_ok.mp hturn
    have hnext := parameter_spans hr hnext
    obtain ⟨b, z, haccept, hturn⟩ := bind_eq_ok.mp hturn
    rcases accept_eq_ok.mp haccept with ⟨hcomma, rfl, rfl⟩ | ⟨-, rfl, rfl⟩
    · obtain ⟨rfl, rfl⟩ := pure_eq_ok.mp hturn
      have hfront : y.Spans (· = [y.front.word]) y.dropFront := .front (by simp [hcomma]) rfl
      have hone : ReadsParameters Body v y.dropFront := by
        refine hnext.trans hfront ?_
        rintro ws _ hws rfl us hus
        simpa using ParametersWords.more (c := y.front.word) hcomma hws hus
      refine hv.trans hone ?_
      rintro ws vs hws hvs us hus
      rw [List.append_assoc]
      exact hws _ (hvs us hus)
    · obtain ⟨rfl, rfl⟩ := pure_eq_ok.mp hturn
      exact hv.trans hnext fun _ _ hws hvs => hws _ (.last hvs)

/-- A parameter list takes no words or those of parameters; the word `void` alone is one. -/
theorem parameterList_spans (hr : r.Sound Body) {params : List Node}
    (h : parameterList r s = .ok params t) :
    s.Spans (fun ws => ws = [] ∨ ParametersWords (NamesType Body) ws) t := by
  obtain ⟨first, u, hkind, h⟩ := bind_eq_ok.mp h
  obtain ⟨hk, rfl⟩ := frontKind_eq_ok.mp hkind
  obtain ⟨second, u, hsecond, h⟩ := bind_eq_ok.mp h
  obtain ⟨-, rfl⟩ := EStateM.Result.ok.inj hsecond
  split at h
  · obtain ⟨rfl, rfl⟩ := pure_eq_ok.mp h
    exact .refl (.inl rfl)
  · split at h
    · rename_i hvoid
      obtain ⟨token, u, htoken, h⟩ := bind_eq_ok.mp h
      obtain ⟨rfl, rfl⟩ := takeFront_eq_ok.mp htoken
      obtain ⟨rfl, rfl⟩ := pure_eq_ok.mp h
      simp only [Bool.and_eq_true, decide_eq_true_eq] at hvoid
      have hfront : s.front.kind = .keyword .voidKw := hk.trans hvoid.1
      refine .front (by simp [hfront]) (.inr (.last ?_))
      have hbase : NamesBase Body [s.front.word.spelling] [s.front.word] :=
        .base (by rw [Token.word_fst, hfront]; rfl)
      have hplain : NamesSpecifier Body _ ([] ++ [s.front.word]) :=
        .intro (by simp) hbase (by simp)
      simpa using ParameterWords.unnamed (.plain hplain) .none
    · exact (parameters_spans hr h).mono fun _ => .inr

theorem declarator_spans (hr : r.Sound Body) {d : Declarator} (h : declarator r s = .ok d t) :
    s.Spans (DeclaratorWords (NamesType Body)) t := by
  obtain ⟨stars, u, hstars, h⟩ := bind_eq_ok.mp h
  have hstars := pointers_spans hstars
  obtain ⟨kind, x, hkind, h⟩ := bind_eq_ok.mp h
  obtain ⟨rfl, rfl⟩ := frontKind_eq_ok.mp hkind
  split at h
  · rename_i hname
    obtain ⟨name, x, htoken, h⟩ := bind_eq_ok.mp h
    obtain ⟨rfl, rfl⟩ := takeFront_eq_ok.mp htoken
    have hfront := State.script_of_front (s := u) (by simp [hname])
    obtain ⟨b, x, haccept, h⟩ := bind_eq_ok.mp h
    rcases accept_eq_ok.mp haccept with ⟨ho, rfl, rfl⟩ | ⟨-, rfl, rfl⟩
    · obtain ⟨params, x, hparams, h⟩ := bind_eq_ok.mp h
      obtain ⟨close, y, hclose, h⟩ := bind_eq_ok.mp h
      obtain ⟨hc, rfl, rfl⟩ := require_eq_ok.mp hclose
      obtain ⟨rfl, rfl⟩ := pure_eq_ok.mp h
      obtain ⟨ws, hws, hwords⟩ := parameterList_spans hr hparams
      have hall : u.Spans (· = u.front.word :: u.dropFront.front.word :: (ws ++ [x.front.word]))
          x.dropFront := by
        refine ⟨_, ?_, rfl⟩
        rw [hfront, State.script_of_front (s := u.dropFront) (by simp [ho]), hws,
          State.script_of_front (s := x) (by simp [hc])]
        simp
      refine hstars.trans hall ?_
      rintro vs _ hvs rfl
      rcases hwords with rfl | hwords
      · exact .procedure hvs hname ho hc
      · exact .function hvs hname ho hc hwords
    · obtain ⟨sizes, x, hsizes, h⟩ := bind_eq_ok.mp h
      obtain ⟨rfl, rfl⟩ := pure_eq_ok.mp h
      obtain ⟨ws, hws, hwords⟩ := arraySizes_spans hr hsizes
      have hall : u.Spans (· = u.front.word :: ws) x := ⟨_, by rw [hfront, hws]; rfl, rfl⟩
      refine hstars.trans hall ?_
      rintro vs _ hvs rfl
      exact .object hvs hname hwords
  · simp [failFound] at h

/-! ## Bodies -/

theorem structMembers_spans (hr : r.Sound Body) {found : List Node}
    (hs : s.front.kind.isMemberType = true) (h : structMembers r s = .ok found t) :
    s.Spans (MemberWords (NamesType Body) found.length) t := by
  obtain ⟨location, u, hhere, h⟩ := bind_eq_ok.mp h
  obtain ⟨-, rfl⟩ := EStateM.Result.ok.inj hhere
  obtain ⟨type, u, htype, h⟩ := bind_eq_ok.mp h
  obtain ⟨type', htype'⟩ := typeSpecifier_member (r := r) hs
  obtain ⟨rfl, rfl⟩ := EStateM.Result.ok.inj (htype'.symm.trans htype)
  obtain ⟨declared, u, hdeclared, h⟩ := bind_eq_ok.mp h
  obtain ⟨stop, v, hstop, h⟩ := bind_eq_ok.mp h
  obtain ⟨hc, rfl, rfl⟩ := require_eq_ok.mp hstop
  obtain ⟨rfl, rfl⟩ := pure_eq_ok.mp h
  have hend : s.front.kind ≠ .endOfInput := by
    rintro hend
    rw [hend] at hs
    contradiction
  obtain ⟨hsome, given, ws, hws, rfl, hseparated, hall⟩ :=
    commaSeparated_reads (P := fun _ => DeclaratorWords (NamesType Body))
      (fun _ _ _ h => declarator_spans hr h) hdeclared
  have hwords : MemberWords (NamesType Body) (given.map Prod.snd).length
      (s.front.word :: (ws ++ [u.front.word])) := by
    refine .intro hs (by simpa using hsome) ?_ hseparated hc
    rintro vs hvs
    obtain ⟨p, hp, rfl⟩ := List.mem_map.mp hvs
    exact hall p hp
  refine ⟨s.front.word :: (ws ++ [u.front.word]), ?_, by simpa using hwords⟩
  rw [State.script_of_front hend, hws, State.script_of_front (s := u) (by simp [hc])]
  simp

/-- The words are those of `P`, unless an end of input is among them. -/
def Unended (P : List Word → Prop) (ws : List Word) : Prop :=
  (∀ w ∈ ws, w.1 ≠ .endOfInput) → P ws

theorem Unended.append {P Q R : List Word → Prop} (hpq : ∀ ⦃ws vs⦄, P ws → Q vs → R (ws ++ vs))
    {ws vs : List Word} (hws : Unended P ws) (hvs : Unended Q vs) : Unended R (ws ++ vs) := by
  intro hall
  refine hpq (hws fun w hw => hall w ?_) (hvs fun w hw => hall w ?_)
  · exact List.mem_append_left _ hw
  · exact List.mem_append_right _ hw

theorem Unended.namesType {Body : List Word → Prop} {type : String} {ts : List Word}
    (hts : ∀ w ∈ ts, w.1 ≠ .endOfInput) (h : NamesType (Unended Body) type ts) :
    NamesType Body type ts :=
  h.mono (fun _ hbody hunended => hunended hbody) hts

/-- Words that pass a group in braces, from its left brace to the one that matches it. -/
def GroupWords (ws : List Word) : Prop :=
  ∃ o us, ws = o :: us ∧ o.1 = .delimiter .leftBrace ∧ ClosingWords 1 us

/-- Between the states stands a group up to where `depth` braces are open. -/
def InGroup (s : State) (depth : Nat) (v : State) : Prop :=
  s.Spans (fun ws => ∀ vs, ClosingWords depth vs → GroupWords (ws ++ vs)) v

theorem InGroup.first (hs : s.front.kind = .delimiter .leftBrace) : InGroup s 1 s.dropFront :=
  .front (by simp [hs]) fun vs hvs => ⟨s.front.word, vs, rfl, hs, hvs⟩

theorem InGroup.next {m n : Nat} {v : State} (h : InGroup s m v) (hv : v.front.kind ≠ .endOfInput)
    (hmn : ∀ vs, ClosingWords n vs → ClosingWords m (v.front.word :: vs)) :
    InGroup s n v.dropFront := by
  have hfront : v.Spans (· = [v.front.word]) v.dropFront := .front hv rfl
  refine h.trans hfront ?_
  rintro ws _ hws rfl vs hvs
  rw [List.append_assoc]
  exact hws _ (hmn vs hvs)

theorem InGroup.last {v : State} (h : InGroup s 1 v)
    (hv : v.front.kind = .delimiter .rightBrace) : s.Spans GroupWords v.dropFront := by
  have hfront : v.Spans (· = [v.front.word]) v.dropFront := .front (by simp [hv]) rfl
  refine h.trans hfront ?_
  rintro ws _ hws rfl
  exact hws _ (.closed hv .done)

/-- An end of input that is taken inside a group is one of its words, or no word is left behind
it. -/
theorem InGroup.ended {n : Nat} {v : State} (h : InGroup s n v)
    (hv : v.front.kind = .endOfInput) :
    v.dropFront.front.kind = .endOfInput ∨ s.Spans (Unended GroupWords) v.dropFront := by
  obtain ⟨ws, hws, -⟩ := h
  cases hscript : v.script with
  | nil =>
      refine .inl ?_
      rw [State.front_kind, v.script_dropFront_of_nil hscript]
      rfl
  | cons w us =>
      have hw : w.1 = .endOfInput := by
        rw [← hv, v.front_kind, hscript]
        rfl
      refine .inr ⟨ws ++ [w], ?_, fun hall => absurd hw (hall w (by simp))⟩
      rw [hws, hscript, v.script_dropFront hscript]
      simp

/-- Passing over a group takes all its words, or ends at the end of input. -/
theorem passBraces_spans {passed passed' : List Token} (hs : s.front.kind = .delimiter .leftBrace)
    (h : passBraces passed s = .ok passed' t) :
    t.front.kind = .endOfInput ∨ s.Spans (Unended GroupWords) t := by
  obtain ⟨⟨depth, found⟩, u, hfound, h⟩ := bind_eq_ok.mp h
  obtain ⟨rfl, rfl⟩ := pure_eq_ok.mp h
  let inside : Nat × List Token → State → Prop := fun a v =>
    a.1 = 0 ∧ s = v ∨ ∃ n, a.1 = n + 1 ∧ InGroup s (n + 1) v
  let behind : Nat × List Token → State → Prop := fun _ v =>
    v.front.kind = .endOfInput ∨ s.Spans (Unended GroupWords) v
  refine loop_ok (I := inside) (D := behind) ?_ (.inl ⟨rfl, rfl⟩) hfound
  rintro ⟨depth, passed⟩ v turn w hv hturn
  obtain ⟨token, x, htoken, hturn⟩ := bind_eq_ok.mp hturn
  obtain ⟨rfl, rfl⟩ := takeFront_eq_ok.mp htoken
  generalize hk : v.front.kind = k at hturn
  split at hturn
  · obtain ⟨rfl, rfl⟩ := pure_eq_ok.mp hturn
    rcases hv with ⟨-, rfl⟩ | ⟨n, -, hgroup⟩
    · simp [hs] at hk
    · exact hgroup.ended hk
  · obtain ⟨rfl, rfl⟩ := pure_eq_ok.mp hturn
    rcases hv with ⟨hdepth, rfl⟩ | ⟨n, hdepth, hgroup⟩
    · exact .inr ⟨0, by simpa using hdepth, .first hs⟩
    · refine .inr ⟨n + 1, by simpa using hdepth, hgroup.next (by simp [hk]) fun vs hvs => ?_⟩
      exact .opened hk hvs
  · rcases hv with ⟨-, rfl⟩ | ⟨n, hdepth, hgroup⟩
    · simp [hs] at hk
    · obtain rfl : depth = n + 1 := hdepth
      split at hturn
      · obtain ⟨rfl, rfl⟩ := pure_eq_ok.mp hturn
        obtain rfl : n = 0 := by omega
        exact .inr ((hgroup.last hk).mono fun _ hws _ => hws)
      · obtain ⟨rfl, rfl⟩ := pure_eq_ok.mp hturn
        refine .inr ⟨n - 1, by simp; omega, hgroup.next (by simp [hk]) fun vs hvs => ?_⟩
        exact .closed hk (by rwa [Nat.sub_add_cancel (by omega)] at hvs)
  · rename_i hend hleft hright
    rcases hv with ⟨-, rfl⟩ | ⟨n, hdepth, hgroup⟩
    · exact absurd (hk.symm.trans hs) hleft
    · obtain rfl : depth = n + 1 := hdepth
      obtain ⟨rfl, rfl⟩ := pure_eq_ok.mp hturn
      rw [← hk] at hend hleft hright
      exact .inr ⟨n, rfl, hgroup.next hend fun vs hvs => .inside hleft hright hend hvs⟩

/-- A note is no word. -/
theorem reportPassed_script {tag : String} {passed : List Token} {x : Unit}
    (h : reportPassed tag passed s = .ok x t) : t.script = s.script := by
  unfold reportPassed at h
  cases hfirst : passed.getLast? with
  | none =>
      rw [hfirst] at h
      obtain ⟨-, rfl⟩ := pure_eq_ok.mp h
      rfl
  | some first =>
      rw [hfirst] at h
      obtain ⟨-, rfl⟩ := EStateM.Result.ok.inj h
      rfl

/-- Between the states stand words of a struct body with so many members. -/
def InBody (Body : List Word → Prop) (s : State) (n : Nat) (v : State) : Prop :=
  s.Spans (Unended (BodyWords (NamesType Body) n)) v

section

variable {n : Nat} {u v w : State}

theorem InBody.members (h : InBody Body s n v) (hr : r.Sound Body) {tag : String}
    {passed : List Token} {x : Unit} {found : List Node} (hk : v.front.kind.isMemberType = true)
    (hreport : reportPassed tag passed v = .ok x u) (hfound : structMembers r u = .ok found w) :
    InBody Body s (n + found.length) w := by
  have hscript := reportPassed_script hreport
  have hk' : u.front.kind.isMemberType = true := by
    rwa [State.front_kind, hscript, ← State.front_kind]
  obtain ⟨ws, hws, hwords⟩ := structMembers_spans hr hk' hfound
  have hspans : v.Spans (Unended (MemberWords (NamesType Body) found.length)) w :=
    ⟨ws, hscript ▸ hws, fun _ => hwords⟩
  refine h.trans hspans fun _ _ => Unended.append fun us vs hus hvs => ?_
  have hone : BodyWords (NamesType Body) found.length (vs ++ []) := .members hvs .none
  simpa using hus.append hone

theorem InBody.group (h : InBody Body s n v) (hgroup : v.Spans (Unended GroupWords) w) :
    InBody Body s n w := by
  refine h.trans hgroup fun _ _ => Unended.append fun _ us hws hus => ?_
  obtain ⟨o, us, rfl, ho, hclosing⟩ := hus
  have hone : BodyWords (NamesType Body) 0 (o :: (us ++ [])) := .group ho hclosing .none
  simpa using hws.append hone

theorem InBody.loose (h : InBody Body s n v) (hk : v.front.kind.isLoose = true) :
    InBody Body s n v.dropFront := by
  have hend : v.front.kind ≠ .endOfInput := by
    rintro hend
    simp [hend, Token.Kind.isLoose] at hk
  have hfront : v.Spans (Unended (BodyWords (NamesType Body) 0)) v.dropFront :=
    .front hend fun _ => .loose hk .none
  exact h.trans hfront fun _ _ => Unended.append fun _ _ => BodyWords.append

end

/-- A struct body takes the words of such a body, with a declarator for each member. -/
theorem structBody_spans (hr : r.Sound Body) {tag : String} {members : List Node}
    (h : structBody r tag s = .ok members t) :
    t.front.kind = .delimiter .rightBrace →
      s.Spans (Unended (BodyWords (NamesType Body) members.length)) t := by
  obtain ⟨body, u, hbody, h⟩ := bind_eq_ok.mp h
  obtain ⟨x, v, hreport, h⟩ := bind_eq_ok.mp h
  obtain ⟨rfl, rfl⟩ := pure_eq_ok.mp h
  have hscript := reportPassed_script hreport
  rw [State.front_kind, hscript, ← State.front_kind]
  let spans : StructBody → State → Prop := fun body v =>
    v.front.kind = .endOfInput ∨ InBody Body s body.members.length v
  have hend : spans body u := by
    refine loop_ok (I := spans) (D := spans) ?_ (.inr (.refl fun _ => .none)) hbody
    rintro body v turn w hv hturn
    obtain ⟨kind, x, hkind, hturn⟩ := bind_eq_ok.mp hturn
    obtain ⟨rfl, rfl⟩ := frontKind_eq_ok.mp hkind
    split at hturn
    · obtain ⟨rfl, rfl⟩ := pure_eq_ok.mp hturn
      exact hv
    · split at hturn
      · simp [fail] at hturn
      · rename_i hright hend
        replace hv := hv.resolve_left hend
        split at hturn
        · rename_i hmember
          obtain ⟨_, x, hreport, hturn⟩ := bind_eq_ok.mp hturn
          obtain ⟨found, y, hfound, hturn⟩ := bind_eq_ok.mp hturn
          obtain ⟨rfl, rfl⟩ := pure_eq_ok.mp hturn
          have hmembers := hv.members hr hmember hreport hfound
          exact .inr (by simpa [Nat.add_comm] using hmembers)
        · split at hturn
          · rename_i hleft
            obtain ⟨passed, x, hpassed, hturn⟩ := bind_eq_ok.mp hturn
            obtain ⟨rfl, rfl⟩ := pure_eq_ok.mp hturn
            exact (passBraces_spans hleft hpassed).imp_right hv.group
          · rename_i hmember hleft
            obtain ⟨token, x, htoken, hturn⟩ := bind_eq_ok.mp hturn
            obtain ⟨rfl, rfl⟩ := takeFront_eq_ok.mp htoken
            obtain ⟨rfl, rfl⟩ := pure_eq_ok.mp hturn
            refine .inr (hv.loose ?_)
            simp [Token.Kind.isLoose, hmember, hleft, hright, hend]
  intro hbrace
  rcases hend with hend | ⟨ws, hws, hwords⟩
  · simp [hbrace] at hend
  · exact ⟨ws, by rw [hws, hscript], by simpa using hwords⟩

end Declarators

/-! ## Expressions -/

/-- What is read behind the tag of a struct is a body in braces, as the grammar has it. -/
theorem structBody_words {r : Rules} {u v : State} {tag : String} {members : List Node}
    (hr : r.Sound (Unended StructWords)) (hleft : u.front.kind = .delimiter .leftBrace)
    (h : structBody r tag u.dropFront = .ok members v)
    (hright : v.front.kind = .delimiter .rightBrace) :
    ∃ body, u.script = body ++ v.dropFront.script ∧ Unended StructWords body := by
  obtain ⟨ws, hws, hwords⟩ := structBody_spans hr h hright
  refine ⟨u.front.word :: (ws ++ [v.front.word]), ?_, fun hall => ?_⟩
  · rw [State.script_of_front (s := u) (by simp [hleft]), hws,
      State.script_of_front (s := v) (by simp [hright])]
    simp
  · have hinside : ∀ w ∈ ws, w.1 ≠ .endOfInput := fun w hw => hall w (by simp [hw])
    have hbody := (hwords hinside).mono (fun _ _ => Unended.namesType) hinside
    have heven : ∀ type ts, NamesType StructWords type ts → EvenWords ts := fun _ _ hts =>
      hts.even fun _ => StructWords.even
    exact .braces hleft hright hbody (hbody.closing heven (.closed hright .done))

/-- The rules read what the grammar derives, down to the bodies of the structs that are named. -/
theorem Rules.level_soundWithin (levels : Nat) :
    (Rules.level levels).Sound (Unended StructWords) :=
  sound_level (fun _ => .absent) structBody_words levels

/-- An expression that is read is derived from the tokens that have been passed and count. -/
theorem expression_derives {levels : Nat} {s u : State} {t : Node}
    (hrest : ∀ token ∈ s.rest, token.kind ≠ .endOfInput)
    (h : (Rules.level levels).expression s = .ok t u) :
    ∃ passed, s.rest = passed ++ u.rest ∧
      Derives (NamesType StructWords) .expression t.unplaced
        ((passed.filter fun token => !s.isPassed token).map Token.word) := by
  obtain ⟨passed, hpassed, hscript⟩ :=
    ((Rules.level_composed levels).expression.toTrue.leads h).passed
  obtain ⟨ws, hws, hderives⟩ := (Rules.level_soundWithin levels).expression h
  obtain rfl := List.append_cancel_right (hscript.symm.trans hws)
  refine ⟨passed, hpassed, ?_⟩
  have hwords : ∀ w ∈ (passed.filter fun token => !s.isPassed token).map Token.word,
      w.1 ≠ .endOfInput := by
    rintro w hw
    obtain ⟨token, htoken, rfl⟩ := List.mem_map.mp hw
    apply hrest token
    rw [hpassed]
    exact List.mem_append_left _ (List.mem_filter.mp htoken).1
  exact hderives.mono (fun _ _ => Unended.namesType) hwords

/-- A sum with the size of a struct that is defined on the spot. -/
theorem expression_derives_structSize :
    let tokens : List Token := [⟨.identifier, "n", ⟨1, 1⟩⟩, ⟨.operator .plus, "+", ⟨1, 3⟩⟩,
      ⟨.keyword .sizeofKw, "sizeof", ⟨1, 5⟩⟩, ⟨.delimiter .leftParen, "(", ⟨1, 11⟩⟩,
      ⟨.keyword .structKw, "struct", ⟨1, 12⟩⟩, ⟨.identifier, "A", ⟨1, 19⟩⟩,
      ⟨.delimiter .leftBrace, "\x7b", ⟨1, 21⟩⟩, ⟨.keyword .intKw, "int", ⟨1, 22⟩⟩,
      ⟨.operator .star, "*", ⟨1, 26⟩⟩, ⟨.identifier, "x", ⟨1, 27⟩⟩,
      ⟨.delimiter .semicolon, ";", ⟨1, 28⟩⟩, ⟨.delimiter .rightBrace, "\x7d", ⟨1, 29⟩⟩,
      ⟨.delimiter .rightParen, ")", ⟨1, 30⟩⟩, ⟨.delimiter .semicolon, ";", ⟨1, 31⟩⟩]
    let s := State.ofTokens tokens 8
    let t : Node := .texted .binary "+" ⟨1, 3⟩
      [.texted .identifier "n" ⟨1, 1⟩ [], .texted .sizeOf "struct A" ⟨1, 5⟩ []]
    (∀ token ∈ s.rest, token.kind ≠ .endOfInput) ∧
      ∃ u passed, (Rules.forTokens tokens).expression s = .ok t u ∧ s.rest = passed ++ u.rest ∧
        Derives (NamesType StructWords) .expression t.unplaced
          ((passed.filter fun token => !s.isPassed token).map Token.word) := by
  intro tokens s t
  have hrest : ∀ token ∈ s.rest, token.kind ≠ .endOfInput := by decide
  have hrun : ∃ u, (Rules.forTokens tokens).expression s = .ok t u :=
    exists_eq_ok (by decide +kernel)
  obtain ⟨u, hu⟩ := hrun
  obtain ⟨passed, hpassed, hderives⟩ := expression_derives hrest hu
  exact ⟨hrest, u, passed, hu, hpassed, hderives⟩

end Grammar

end CSurvey
