import CSurvey.Proofs.Expression.Derivation
import CSurvey.Proofs.Syntax.Shape

/-! # Derivations taken apart

Which words an expression of a kind is derived from, and that the parts of a tree are derived from
some of its words. -/

namespace CSurvey

/-- The expressions that begin with an operator, a keyword or a type before their operand. -/
def Node.Kind.isPrefixed : Node.Kind → Bool
  | .unary | .cast | .sizeOf => true
  | _ => false

theorem Node.Kind.isCompound_of_isPrefixed {k : Node.Kind} (h : k.isPrefixed = true) :
    k.isCompound = false := by
  cases k <;> first | rfl | contradiction

/-! ## The words of a kind -/

namespace Derives

variable {Names : String → List Word → Prop} {tier : Tier} {t : Node} {w : Word} {ws : List Word}

/-- What is neither compound nor prefixed is an operand at any tier. -/
theorem operand_of_kind (h : Derives Names tier t ws) (hcompound : t.kind.isCompound = false)
    (hprefixed : t.kind.isPrefixed = false) : Derives Names .operand t ws := by
  induction h with
  | number hw hx => exact .ofPrimary (.number hw hx)
  | strings h => exact .ofPrimary (.strings h)
  | character hw => exact .ofPrimary (.character hw)
  | identifier hw => exact .ofPrimary (.identifier hw)
  | parens ho hc h => exact .ofPrimary (.parens ho hc h)
  | ofPrimary h => exact .ofPrimary h
  | index ho hc ha hi => exact .index ho hc ha hi
  | call ho hc hgs hf hall => exact .call ho hc hgs hf hall
  | member hop hname ha => exact .member hop hname ha
  | pointerMember hop hname ha => exact .pointerMember hop hname ha
  | update hop hsign ha => exact .update hop hsign ha
  | ofOperand _ ih => exact ih hcompound hprefixed
  | ofUnary _ ih => exact ih hcompound hprefixed
  | ofTighter _ ih => exact ih hcompound hprefixed
  | ofBinary _ ih => exact ih hcompound hprefixed
  | ofConditional _ ih => exact ih hcompound hprefixed
  | _ => contradiction

/-- The words of an expression with an operator before its operand, if they begin with the
operator. -/
theorem unary_of_kind (h : Derives Names tier t (w :: ws)) (hk : t.kind = .unary)
    {o : Token.Operator} (hw : w.1 = .operator o) :
    ∃ a, t = .texted .unary w.2 .start [a] ∧
      (o.isSign = true ∧ Derives Names .unary a ws ∨
        o.isUpdate = true ∧ Derives Names .operand a ws) := by
  generalize hws : w :: ws = all at h
  induction h with
  | parens ho =>
      obtain ⟨rfl, -⟩ := List.cons.inj hws
      rw [ho] at hw
      contradiction
  | signed hop hsign ha =>
      obtain ⟨rfl, rfl⟩ := List.cons.inj hws
      obtain rfl := Token.Kind.operator.inj (hw.symm.trans hop)
      exact ⟨_, rfl, .inl ⟨hsign, ha⟩⟩
  | updated hop hsign ha =>
      obtain ⟨rfl, rfl⟩ := List.cons.inj hws
      obtain rfl := Token.Kind.operator.inj (hw.symm.trans hop)
      exact ⟨_, rfl, .inr ⟨hsign, ha⟩⟩
  | ofPrimary _ ih => exact ih hk hws
  | ofOperand _ ih => exact ih hk hws
  | ofUnary _ ih => exact ih hk hws
  | ofTighter _ ih => exact ih hk hws
  | ofBinary _ ih => exact ih hk hws
  | ofConditional _ ih => exact ih hk hws
  | _ => contradiction

/-- A number without parentheses is one word. -/
theorem number_of_kind (h : Derives Names tier t (w :: ws)) (hk : t.kind = .number)
    (hw : w.1 ≠ .delimiter .leftParen) : w.1 = .number ∧ ws = [] := by
  generalize hws : w :: ws = all at h
  induction h with
  | number hnumber =>
      obtain ⟨rfl, rfl⟩ := List.cons.inj hws
      exact ⟨hnumber, rfl⟩
  | parens ho =>
      obtain ⟨rfl, -⟩ := List.cons.inj hws
      exact absurd ho hw
  | ofPrimary _ ih => exact ih hk hws
  | ofOperand _ ih => exact ih hk hws
  | ofUnary _ ih => exact ih hk hws
  | ofTighter _ ih => exact ih hk hws
  | ofBinary _ ih => exact ih hk hws
  | ofConditional _ ih => exact ih hk hws
  | _ => contradiction

/-- A member without parentheses around it has a point behind the words of its operand. -/
theorem member_of_kind (h : Derives Names tier t (w :: ws)) (hk : t.kind = .member)
    (hw : w.1 ≠ .delimiter .leftParen) :
    ∃ a as o name, t.children.head? = some a ∧ w :: ws = as ++ [o, name] ∧
      o.1 = .delimiter .dot ∧ Derives Names .operand a as := by
  generalize hws : w :: ws = all at h
  induction h with
  | member hop _ ha => exact ⟨_, _, _, _, rfl, rfl, hop, ha⟩
  | parens ho =>
      obtain ⟨rfl, -⟩ := List.cons.inj hws
      exact absurd ho hw
  | ofPrimary _ ih => exact ih hk hws
  | ofOperand _ ih => exact ih hk hws
  | ofUnary _ ih => exact ih hk hws
  | ofTighter _ ih => exact ih hk hws
  | ofBinary _ ih => exact ih hk hws
  | ofConditional _ ih => exact ih hk hws
  | _ => contradiction

end Derives

/-! ## The words of a part -/

/-- The tree is derived, at some tier, from some of the words. -/
def DerivesAmong (Names : String → List Word → Prop) (ws : List Word) (n : Node) : Prop :=
  ∃ tier vs, Derives Names tier n vs ∧ vs ⊆ ws

theorem DerivesAmong.mono {Names : String → List Word → Prop} {n : Node} {vs ws : List Word}
    (h : DerivesAmong Names vs n) (hsub : vs ⊆ ws) : DerivesAmong Names ws n := by
  obtain ⟨tier, us, hus, hvs⟩ := h
  exact ⟨tier, us, hus, List.Subset.trans hvs hsub⟩

/-- Each part of a tree is derived from some of its words. -/
theorem Derives.parts {Names : String → List Word → Prop} {tier : Tier} {t : Node}
    {ws : List Word} (h : Derives Names tier t ws) : ∀ n ∈ t.preorder, DerivesAmong Names ws n := by
  have hroot : ∀ {tier : Tier} {t : Node} {ws : List Word}, Derives Names tier t ws →
      (∀ c ∈ t.children, ∀ n ∈ c.preorder, DerivesAmong Names ws n) →
        ∀ n ∈ t.preorder, DerivesAmong Names ws n :=
    fun h hchildren => Node.forall_preorder.mpr ⟨⟨_, _, h, List.Subset.refl _⟩, hchildren⟩
  have hleaf : ∀ {name : Word}, name.1 = .identifier →
      ∀ n ∈ (Node.texted .identifier name.2 .start []).preorder, DerivesAmong Names [name] n :=
    fun hname => hroot (.identifier hname) (by simp [Node.texted])
  induction h with
  | number hw hx => exact hroot (.number hw hx) (by simp)
  | strings h => exact hroot (.strings h) (by simp [Node.texted])
  | character hw => exact hroot (.character hw) (by simp [Node.texted])
  | identifier hw => exact hroot (.identifier hw) (by simp [Node.texted])
  | parens _ _ _ ih => exact fun n hn => (ih n hn).mono (by simp)
  | ofPrimary _ ih => exact ih
  | ofOperand _ ih => exact ih
  | ofUnary _ ih => exact ih
  | ofTighter _ ih => exact ih
  | ofBinary _ ih => exact ih
  | ofConditional _ ih => exact ih
  | index ho hc ha hi iha ihi =>
      refine hroot (.index ho hc ha hi)
        (List.forall_mem_cons.mpr ⟨?_, List.forall_mem_singleton.mpr ?_⟩)
      · exact fun n hn => (iha n hn).mono fun w hw => by simp [hw]
      · exact fun n hn => (ihi n hn).mono fun w hw => by simp [hw]
  | call ho hc hgs hf hall ihf ihs =>
      refine hroot (.call ho hc hgs hf hall) (List.forall_mem_cons.mpr ⟨?_, fun c hc => ?_⟩)
      · exact fun n hn => (ihf n hn).mono fun w hw => by simp [hw]
      · obtain ⟨p, hp, rfl⟩ := List.mem_map.mp hc
        refine fun n hn => (ihs p hp n hn).mono fun w hw => ?_
        have hmem := hgs.mem (List.mem_map_of_mem hp) hw
        simp [hmem]
  | @member a as o name hop hname ha ih =>
      refine hroot (.member hop hname ha)
        (List.forall_mem_cons.mpr ⟨?_, List.forall_mem_singleton.mpr ?_⟩)
      · exact fun n hn => (ih n hn).mono fun w hw => by simp [hw]
      · exact fun n hn => (hleaf hname n hn).mono (by simp)
  | pointerMember hop hname ha ih =>
      refine hroot (.pointerMember hop hname ha)
        (List.forall_mem_cons.mpr ⟨?_, List.forall_mem_singleton.mpr ?_⟩)
      · exact fun n hn => (ih n hn).mono fun w hw => by simp [hw]
      · exact fun n hn => (hleaf hname n hn).mono (by simp)
  | update hop hsign ha ih =>
      refine hroot (.update hop hsign ha) (List.forall_mem_singleton.mpr ?_)
      exact fun n hn => (ih n hn).mono fun w hw => by simp [hw]
  | signed hop hsign ha ih =>
      refine hroot (.signed hop hsign ha) (List.forall_mem_singleton.mpr ?_)
      exact fun n hn => (ih n hn).mono fun w hw => by simp [hw]
  | updated hop hsign ha ih =>
      refine hroot (.updated hop hsign ha) (List.forall_mem_singleton.mpr ?_)
      exact fun n hn => (ih n hn).mono fun w hw => by simp [hw]
  | sizeOfType hk ho hc ht => exact hroot (.sizeOfType hk ho hc ht) (by simp [Node.texted])
  | sizeOf hk hopen ha ih =>
      refine hroot (.sizeOf hk hopen ha) (List.forall_mem_singleton.mpr ?_)
      exact fun n hn => (ih n hn).mono fun w hw => by simp [hw]
  | cast ho hc ht ha ih =>
      refine hroot (.cast ho hc ht ha) (List.forall_mem_singleton.mpr ?_)
      exact fun n hn => (ih n hn).mono fun w hw => by simp [hw]
  | binary hop ha hb iha ihb =>
      refine hroot (.binary hop ha hb)
        (List.forall_mem_cons.mpr ⟨?_, List.forall_mem_singleton.mpr ?_⟩)
      · exact fun n hn => (iha n hn).mono fun w hw => by simp [hw]
      · exact fun n hn => (ihb n hn).mono fun w hw => by simp [hw]
  | conditional hq hd ha hb hc iha ihb ihc =>
      refine hroot (.conditional hq hd ha hb hc) (List.forall_mem_cons.mpr
        ⟨?_, List.forall_mem_cons.mpr ⟨?_, List.forall_mem_singleton.mpr ?_⟩⟩)
      · exact fun n hn => (iha n hn).mono fun w hw => by simp [hw]
      · exact fun n hn => (ihb n hn).mono fun w hw => by simp [hw]
      · exact fun n hn => (ihc n hn).mono fun w hw => by simp [hw]
  | assignment hop ha hb iha ihb =>
      refine hroot (.assignment hop ha hb)
        (List.forall_mem_cons.mpr ⟨?_, List.forall_mem_singleton.mpr ?_⟩)
      · exact fun n hn => (iha n hn).mono fun w hw => by simp [hw]
      · exact fun n hn => (ihb n hn).mono fun w hw => by simp [hw]

end CSurvey
