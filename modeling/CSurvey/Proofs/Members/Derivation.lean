import CSurvey.Proofs.Expression.Derivation
import CSurvey.Proofs.Grammar.TypeNames

/-! # Derivations of struct bodies

The grammar of declarators, of the members of structs and of what else stands between the braces of
a struct, as relations on words. `Names` says which words name a type of a given text; it is the
parameter through which a struct can stand inside a struct. -/

namespace CSurvey

/-- Whether a kind is a qualifier that may follow a pointer star. -/
def Token.Kind.isQualifier : Token.Kind → Bool
  | .keyword .constKw | .keyword .volatileKw => true
  | _ => false

/-- Pointer stars, each with its qualifiers. -/
inductive PointerWords : List Word → Prop where
  | none : PointerWords []
  | star {w : Word} {qualifiers ws : List Word} (hw : w.1 = .operator .star)
      (hqualifiers : ∀ q ∈ qualifiers, q.1.isQualifier = true) :
      PointerWords ws → PointerWords (w :: (qualifiers ++ ws))

/-- The words lead from inside `depth` open braces to just behind the brace that closes the
outermost of them. -/
inductive ClosingWords : Nat → List Word → Prop where
  | done : ClosingWords 0 []
  | opened {depth : Nat} {w : Word} {ws : List Word} (hw : w.1 = .delimiter .leftBrace) :
      ClosingWords (depth + 2) ws → ClosingWords (depth + 1) (w :: ws)
  | closed {depth : Nat} {w : Word} {ws : List Word} (hw : w.1 = .delimiter .rightBrace) :
      ClosingWords depth ws → ClosingWords (depth + 1) (w :: ws)
  | inside {depth : Nat} {w : Word} {ws : List Word} (hleft : w.1 ≠ .delimiter .leftBrace)
      (hright : w.1 ≠ .delimiter .rightBrace) (hend : w.1 ≠ .endOfInput) :
      ClosingWords (depth + 1) ws → ClosingWords (depth + 1) (w :: ws)

/-- Whether a kind is passed over alone in a struct body: it opens no member, no group in braces and
does not end the body. -/
def Token.Kind.isLoose (k : Token.Kind) : Bool :=
  !k.isMemberType && k != .delimiter .leftBrace && k != .delimiter .rightBrace && k != .endOfInput

section Grammar

variable (Names : String → List Word → Prop)

/-- Array sizes in brackets; a size need not be given. -/
inductive SizeWords : List Word → Prop where
  | none : SizeWords []
  | absent {o c : Word} {ws : List Word} (ho : o.1 = .delimiter .leftBracket)
      (hc : c.1 = .delimiter .rightBracket) : SizeWords ws → SizeWords (o :: c :: ws)
  | size {o c : Word} {t : Node} {es ws : List Word} (ho : o.1 = .delimiter .leftBracket)
      (hc : c.1 = .delimiter .rightBracket) (hes : Derives Names .expression t es) :
      SizeWords ws → SizeWords (o :: (es ++ c :: ws))

/-- Array sizes in brackets with their trees; the tree of a size that is not given is an absent one.
`Size` says which words are a size of a given tree. -/
inductive Dimensions (Size : Node → List Word → Prop) : List Node → List Word → Prop where
  | none : Dimensions Size [] []
  | absent {o c : Word} {sizes : List Node} {ws : List Word} (ho : o.1 = .delimiter .leftBracket)
      (hc : c.1 = .delimiter .rightBracket) :
      Dimensions Size sizes ws → Dimensions Size (.absent .start :: sizes) (o :: c :: ws)
  | size {o c : Word} {size : Node} {sizes : List Node} {es ws : List Word}
      (ho : o.1 = .delimiter .leftBracket) (hc : c.1 = .delimiter .rightBracket)
      (hes : Size size es) :
      Dimensions Size sizes ws → Dimensions Size (size :: sizes) (o :: (es ++ c :: ws))

/-- A parameter: a type, perhaps a name, perhaps array sizes. -/
inductive ParameterWords : List Word → Prop where
  | unnamed {type : String} {ts sizes : List Word} (hts : Names type ts)
      (hsizes : SizeWords Names sizes) : ParameterWords (ts ++ sizes)
  | named {type : String} {name : Word} {ts sizes : List Word} (hts : Names type ts)
      (hname : name.1 = .identifier) (hsizes : SizeWords Names sizes) :
      ParameterWords (ts ++ name :: sizes)

/-- One or more parameters; three points may stand for the last. -/
inductive ParametersWords : List Word → Prop where
  | further {a b c : Word} (ha : a.1 = .delimiter .dot) (hb : b.1 = .delimiter .dot)
      (hc : c.1 = .delimiter .dot) : ParametersWords [a, b, c]
  | last {ws : List Word} : ParameterWords Names ws → ParametersWords ws
  | more {c : Word} {ws us : List Word} (hc : c.1 = .delimiter .comma) :
      ParameterWords Names ws → ParametersWords us → ParametersWords (ws ++ c :: us)

/-- A declared name with the stars before it and the array sizes or the parameters behind it. -/
inductive DeclaratorWords : List Word → Prop where
  | object {name : Word} {stars sizes : List Word} (hstars : PointerWords stars)
      (hname : name.1 = .identifier) (hsizes : SizeWords Names sizes) :
      DeclaratorWords (stars ++ name :: sizes)
  | procedure {name o c : Word} {stars : List Word} (hstars : PointerWords stars)
      (hname : name.1 = .identifier) (ho : o.1 = .delimiter .leftParen)
      (hc : c.1 = .delimiter .rightParen) : DeclaratorWords (stars ++ [name, o, c])
  | function {name o c : Word} {stars params : List Word} (hstars : PointerWords stars)
      (hname : name.1 = .identifier) (ho : o.1 = .delimiter .leftParen)
      (hc : c.1 = .delimiter .rightParen) (hparams : ParametersWords Names params) :
      DeclaratorWords (stars ++ name :: o :: (params ++ [c]))

/-- One line of members: a base type, so many declarators with commas between them, a semicolon. -/
inductive MemberWords : Nat → List Word → Prop where
  | intro {base stop : Word} {declarators : List (List Word)} {ws : List Word}
      (hbase : base.1.isMemberType = true) (hsome : declarators ≠ [])
      (hall : ∀ vs ∈ declarators, DeclaratorWords Names vs) (hws : Separated declarators ws)
      (hstop : stop.1 = .delimiter .semicolon) :
      MemberWords declarators.length (base :: (ws ++ [stop]))

/-- What stands between the braces of a struct, with so many declarators in all: lines of members,
groups in braces and loose words. -/
inductive BodyWords : Nat → List Word → Prop where
  | none : BodyWords 0 []
  | members {m n : Nat} {ws us : List Word} :
      MemberWords Names m ws → BodyWords n us → BodyWords (m + n) (ws ++ us)
  | group {n : Nat} {o : Word} {ws us : List Word} (ho : o.1 = .delimiter .leftBrace)
      (hws : ClosingWords 1 ws) : BodyWords n us → BodyWords n (o :: (ws ++ us))
  | loose {n : Nat} {w : Word} {us : List Word} (hw : w.1.isLoose = true) :
      BodyWords n us → BodyWords n (w :: us)

end Grammar

theorem Dimensions.mono {Size Size' : Node → List Word → Prop} {sizes : List Node} {ws : List Word}
    (h : Dimensions Size sizes ws)
    (hsize : ∀ size es, es.length ≤ ws.length → Size size es → Size' size es) :
    Dimensions Size' sizes ws := by
  induction h with
  | none => exact .none
  | absent ho hc _ ih =>
      refine .absent ho hc (ih fun size es hle => hsize size es ?_)
      simp only [List.length_cons]
      omega
  | size ho hc hes _ ih =>
      refine .size ho hc (hsize _ _ ?_ hes) (ih fun size es hle => hsize size es ?_)
      · simp only [List.length_cons, List.length_append]
        omega
      · simp only [List.length_cons, List.length_append]
        omega

/-- Array sizes have trees. -/
theorem SizeWords.dimensions {Names : String → List Word → Prop} {ws : List Word}
    (h : SizeWords Names ws) : ∃ sizes, Dimensions (Derives Names .expression) sizes ws := by
  induction h with
  | none => exact ⟨_, .none⟩
  | absent ho hc _ ih =>
      obtain ⟨sizes, ih⟩ := ih
      exact ⟨_, .absent ho hc ih⟩
  | size ho hc hes _ ih =>
      obtain ⟨sizes, ih⟩ := ih
      exact ⟨_, .size ho hc hes ih⟩

/-- What stands behind the tag of a struct: nothing, or its body up to the brace that matches the
first one. The types in the body may be structs with bodies of their own. -/
inductive StructWords : List Word → Prop where
  | absent : StructWords []
  | braces {n : Nat} {o c : Word} {ws : List Word} (ho : o.1 = .delimiter .leftBrace)
      (hc : c.1 = .delimiter .rightBrace) (hws : BodyWords (NamesType StructWords) n ws)
      (hclosing : ClosingWords 1 (ws ++ [c])) : StructWords (o :: (ws ++ [c]))

/-- A parameter opens with a type. -/
theorem ParameterWords.head {Body : List Word → Prop} {ws : List Word}
    (h : ParameterWords (NamesType Body) ws) : ∃ w us, ws = w :: us ∧ w.1.startsType = true := by
  cases h with
  | unnamed hts _ =>
      obtain ⟨w, ts, rfl, hw⟩ := hts.head
      exact ⟨w, _, rfl, hw⟩
  | named hts _ _ =>
      obtain ⟨w, ts, rfl, hw⟩ := hts.head
      exact ⟨w, _, rfl, hw⟩

/-- Parameters open with a type or a point. -/
theorem ParametersWords.head {Body : List Word → Prop} {ws : List Word}
    (h : ParametersWords (NamesType Body) ws) :
    ∃ w us, ws = w :: us ∧ (w.1 = .delimiter .dot ∨ w.1.startsType = true) := by
  cases h with
  | further ha _ _ => exact ⟨_, _, rfl, .inl ha⟩
  | last h =>
      obtain ⟨w, us, rfl, hw⟩ := h.head
      exact ⟨w, us, rfl, .inr hw⟩
  | more _ h _ =>
      obtain ⟨w, us, rfl, hw⟩ := h.head
      exact ⟨w, _, rfl, .inr hw⟩

/-! ## Other names of types

Where the words of all types in a derivation name types in another sense as well, it is a derivation
in that sense too. `P` holds of the words at hand. -/

section Mono

variable {P : Word → Prop} {Names Names' : String → List Word → Prop} {ws : List Word}

theorem NamesType.mono {Body Body' : List Word → Prop} {type : String}
    (h : NamesType Body type ws) (hbody : ∀ ws, (∀ w ∈ ws, P w) → Body ws → Body' ws)
    (hws : ∀ w ∈ ws, P w) : NamesType Body' type ws := by
  induction h with
  | plain h =>
      obtain ⟨hmodifiers, hbase, hsome⟩ := h
      refine .plain (.intro hmodifiers ?_ hsome)
      cases hbase with
      | base hw => exact .base hw
      | struct hk htag hwords => exact .struct hk htag (hbody _ (by simp_all) hwords)
      | absent => exact .absent
  | star hw _ ih => exact .star hw (ih fun w hw => hws w (List.mem_append_left _ hw))

variable (hnames : ∀ type ts, (∀ w ∈ ts, P w) → Names type ts → Names' type ts)

include hnames

theorem Derives.mono {tier : Tier} {t : Node} (hws : ∀ w ∈ ws, P w)
    (h : Derives Names tier t ws) : Derives Names' tier t ws := by
  induction h with
  | number hw hx => exact .number hw hx
  | strings h => exact .strings h
  | character hw => exact .character hw
  | identifier hw => exact .identifier hw
  | parens ho hc _ ih => exact .parens ho hc (ih (by simp_all))
  | ofPrimary _ ih => exact .ofPrimary (ih hws)
  | index ho hc _ _ iha ihi => exact .index ho hc (iha (by simp_all)) (ihi (by simp_all))
  | call ho hc hgs _ _ ihf ih =>
      refine .call ho hc hgs (ihf (by simp_all)) fun p hp => ih p hp fun w hw => ?_
      have hgiven := hgs.mem (List.mem_map_of_mem hp) hw
      exact hws w (by simp [hgiven])
  | member hop hname _ ih => exact .member hop hname (ih (by simp_all))
  | pointerMember hop hname _ ih => exact .pointerMember hop hname (ih (by simp_all))
  | update hop hsign _ ih => exact .update hop hsign (ih (by simp_all))
  | ofOperand _ ih => exact .ofOperand (ih hws)
  | signed hop hsign _ ih => exact .signed hop hsign (ih (by simp_all))
  | updated hop hsign _ ih => exact .updated hop hsign (ih (by simp_all))
  | sizeOfType hk ho hc ht => exact .sizeOfType hk ho hc (hnames _ _ (by simp_all) ht)
  | sizeOf hk ha _ ih => exact .sizeOf hk ha (ih (by simp_all))
  | cast ho hc ht _ ih => exact .cast ho hc (hnames _ _ (by simp_all) ht) (ih (by simp_all))
  | ofUnary _ ih => exact .ofUnary (ih hws)
  | ofTighter _ ih => exact .ofTighter (ih hws)
  | binary hop _ _ iha ihb => exact .binary hop (iha (by simp_all)) (ihb (by simp_all))
  | ofBinary _ ih => exact .ofBinary (ih hws)
  | conditional hq hd _ _ _ iha ihb ihc =>
      exact .conditional hq hd (iha (by simp_all)) (ihb (by simp_all)) (ihc (by simp_all))
  | ofConditional _ ih => exact .ofConditional (ih hws)
  | assignment hop _ _ iha ihb => exact .assignment hop (iha (by simp_all)) (ihb (by simp_all))

theorem SizeWords.mono (hws : ∀ w ∈ ws, P w) (h : SizeWords Names ws) : SizeWords Names' ws := by
  induction h with
  | none => exact .none
  | absent ho hc _ ih => exact .absent ho hc (ih (by simp_all))
  | size ho hc hes _ ih => exact .size ho hc (hes.mono hnames (by simp_all)) (ih (by simp_all))

theorem ParameterWords.mono (hws : ∀ w ∈ ws, P w) (h : ParameterWords Names ws) :
    ParameterWords Names' ws := by
  cases h with
  | unnamed hts hsizes =>
      exact .unnamed (hnames _ _ (by simp_all) hts) (hsizes.mono hnames (by simp_all))
  | named hts hname hsizes =>
      exact .named (hnames _ _ (by simp_all) hts) hname (hsizes.mono hnames (by simp_all))

theorem ParametersWords.mono (hws : ∀ w ∈ ws, P w) (h : ParametersWords Names ws) :
    ParametersWords Names' ws := by
  induction h with
  | further ha hb hc => exact .further ha hb hc
  | last h => exact .last (h.mono hnames hws)
  | more hc h _ ih => exact .more hc (h.mono hnames (by simp_all)) (ih (by simp_all))

theorem DeclaratorWords.mono (hws : ∀ w ∈ ws, P w) (h : DeclaratorWords Names ws) :
    DeclaratorWords Names' ws := by
  cases h with
  | object hstars hname hsizes =>
      exact .object hstars hname (hsizes.mono hnames (by simp_all))
  | procedure hstars hname ho hc => exact .procedure hstars hname ho hc
  | function hstars hname ho hc hparams =>
      exact .function hstars hname ho hc (hparams.mono hnames (by simp_all))

theorem MemberWords.mono {n : Nat} (hws : ∀ w ∈ ws, P w) (h : MemberWords Names n ws) :
    MemberWords Names' n ws := by
  obtain ⟨hbase, hsome, hall, hseparated, hstop⟩ := h
  refine .intro hbase hsome (fun vs hvs => ?_) hseparated hstop
  refine (hall vs hvs).mono hnames fun w hw => ?_
  have hgiven := hseparated.mem hvs hw
  exact hws w (by simp [hgiven])

theorem BodyWords.mono {n : Nat} (hws : ∀ w ∈ ws, P w) (h : BodyWords Names n ws) :
    BodyWords Names' n ws := by
  induction h with
  | none => exact .none
  | members h _ ih => exact .members (h.mono hnames (by simp_all)) (ih (by simp_all))
  | group ho hwords _ ih => exact .group ho hwords (ih (by simp_all))
  | loose hw _ ih => exact .loose hw (ih (by simp_all))

end Mono

end CSurvey
