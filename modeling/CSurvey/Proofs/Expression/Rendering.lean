import Mathlib.Data.Bool.AllAny
import CSurvey.Proofs.Expression.Inversion
import CSurvey.Proofs.Expression.Rewriting
import CSurvey.Proofs.Expression.Soundness

/-! # Rendered expressions

The text that is shown for the tree of an expression puts parentheses around the operands that an
operator with two operands, an assignment or a conditional makes, and around no others. Where that
is enough, and no words run together, the text is read as the tree again. -/

namespace CSurvey

namespace Node

/-- Whether an operator of the text adds or takes one. -/
def isUpdateText (text : String) : Bool :=
  (Token.Operator.ofSpelling? text.toList).any Token.Operator.isUpdate

/-- Whether an operator and the first character of the one behind it make another operator. -/
def runTogether (text next : String) : Bool :=
  (Token.Operator.ofSpelling? (text.toList ++ next.toList.take 1)).isSome

/-- Whether the text of a node keeps its first operand together and apart from its operator. What
stands behind an operand takes it from an expression that begins with something before its own
operand, a point behind a number belongs to the number, and two operators before an operand may
make another one. -/
def standsClear (n : Node) : Bool :=
  match n.kind, n.children with
  | .index, a :: _ | .call, a :: _ | .pointerMember, a :: _ | .update, a :: _ => !a.kind.isPrefixed
  | .member, a :: _ => !a.kind.isPrefixed && a.kind ≠ .number
  | .unary, a :: _ =>
    if isUpdateText (n.text?.getD "") then !a.kind.isPrefixed
    else a.kind ≠ .unary || !runTogether (n.text?.getD "") (a.text?.getD "")
  | _, _ => true

/-- A number that is neither infinite nor none at all. -/
def isFinite (n : Node) : Bool :=
  match n.value with
  | some (.number (.finite _ _)) | some (.text _) | none => true
  | _ => false

end Node

open Token (startsWord continuesWord)

/-! ## Parts of a text -/

/-- What may come right behind an operand, with a point or without. -/
def Ceases (point : Bool) (rest : List Char) : Prop :=
  ∀ c ∈ rest.head?, c ∈ " )][(,-+".toList ∨ c = '.' ∧ point = true

/-- No character of an operator comes first. -/
def OpensPlain (text : List Char) : Prop :=
  ∃ c cs, text = c :: cs ∧ c ∉ "+-*/%=!<>&|^~?".toList

namespace Node

/-- The tier at which a kind of expression is shown as it is. -/
def Kind.tier (k : Kind) : Tier :=
  if k.isCompound then .expression else if k.isPrefixed then .unary else .operand

/-- Whether a point behind the operand of a kind asks it for a member. -/
def Kind.takesPoint (k : Kind) : Bool :=
  !k.isPrefixed && k ≠ .number

/-- The words are those of the text that shows a tree. -/
structure Shown (n : Node) (ws : List Word) : Prop where
  derives : Derives (NamesType (· = [])) n.kind.tier n ws
  opens : n.kind.isCompound = false → n.kind ≠ .unary → OpensPlain n.render.toList
  spells : ∀ {rest : List Char} {us : List Word},
    Ceases (!n.kind.isCompound && n.kind.takesPoint) rest → Spells rest us →
      Spells (n.render.toList ++ rest) (ws ++ us)

/-- The text of an expression as an operand. -/
def operand (n : Node) : String :=
  Part.operand ⟨n.kind.isCompound, n.render⟩

/-- The characters of an expression as an operand. -/
def operandText (n : Node) : List Char :=
  n.operand.toList

/-- The words are those of the text that shows a tree as an operand. -/
structure ShownInside (n : Node) (ws : List Word) : Prop where
  derives : Derives (NamesType (· = [])) .unary n ws
  bare : n.kind.isPrefixed = false → Derives (NamesType (· = [])) .operand n ws
  opens : n.kind ≠ .unary → OpensPlain n.operandText
  spells : ∀ {rest : List Char} {us : List Word}, Ceases n.kind.takesPoint rest → Spells rest us →
    Spells (n.operandText ++ rest) (ws ++ us)

end Node

namespace Ceases

variable {point : Bool} {rest : List Char}

theorem of_false (h : Ceases false rest) : Ceases point rest := by
  intro c hc
  rcases h c hc with hmem | ⟨-, hpoint⟩
  · exact .inl hmem
  · contradiction

theorem ends_name (h : Ceases point rest) : Token.Kind.identifier.Ends rest := by
  have hwords : ∀ c ∈ " )][(,-+".toList, continuesWord c = false :=
    List.all_iff_forall_prop.mp (by decide)
  intro c hc
  rcases h c hc with hmem | ⟨rfl, -⟩
  · exact hwords c hmem
  · decide

theorem ends_number (h : Ceases false rest) : Token.Kind.number.Ends rest := by
  have hnumbers : ∀ c ∈ " )][(,-+".toList, Token.continuesNumber c = false :=
    List.all_iff_forall_prop.mp (by decide)
  intro c hc
  rcases h c hc with hmem | ⟨-, hpoint⟩
  · exact hnumbers c hmem
  · cases hpoint

theorem ends_update {o : Token.Operator} (ho : o.isUpdate = true) (h : Ceases point rest) :
    (Token.Kind.operator o).Ends rest := by
  have hupdates : ∀ o ∈ Token.Operator.all, o.isUpdate = true →
      (" )][(,-+".toList.all fun c => !(Token.Kind.operator o).runsOn c) = true ∧
        (Token.Kind.operator o).runsOn '.' = false := by
    decide
  obtain ⟨hmany, hpoint⟩ := hupdates o o.mem_all ho
  intro c hc
  rcases h c hc with hmem | ⟨rfl, -⟩
  · simpa using List.all_eq_true.mp hmany c hmem
  · exact hpoint

end Ceases

/-- An operator does not run on over a character that makes no other operator with it. -/
theorem Token.Operator.runsOn_eq_false {o : Operator} {c : Char} (ho : o ≠ .slash)
    (h : ∀ longer : Operator, longer.spelling.toList ≠ o.spelling.toList ++ [c]) :
    (Kind.operator o).runsOn c = false := by
  have hnone : ofSpelling? (o.spelling.toList ++ [c]) = none := by
    rw [Option.eq_none_iff_forall_ne_some]
    exact fun longer hlonger => h longer (spelling_of_ofSpelling? hlonger)
  simp [Kind.runsOn, hnone, ho]

/-- An arrow goes on with nothing. -/
theorem ends_arrow (rest : List Char) : (Token.Kind.operator .arrow).Ends rest := by
  have hlong : ∀ o ∈ Token.Operator.all, o.spelling.toList.take 2 = ['-', '>'] →
      o.spelling.toList.length = 2 := by
    decide
  intro c _
  refine Token.Operator.runsOn_eq_false (by decide) fun longer hlonger => ?_
  have hlength := hlong longer longer.mem_all (by rw [hlonger]; rfl)
  rw [hlonger] at hlength
  simp [Token.Operator.spelling] at hlength

/-- No operator goes on with a character of no operator. -/
theorem ends_opensPlain {o : Token.Operator} {text : List Char} (ho : o ≠ .slash)
    (h : OpensPlain text) (rest : List Char) : (Token.Kind.operator o).Ends (text ++ rest) := by
  have hmem : ∀ o ∈ Token.Operator.all, o.spelling.toList ⊆ "+-*/%=!<>&|^~?".toList := by
    decide
  obtain ⟨x, cs, rfl, hx⟩ := h
  intro c hc
  obtain rfl : x = c := by simpa using hc
  refine Token.Operator.runsOn_eq_false ho fun longer hlonger => ?_
  exact hx (hmem longer longer.mem_all (by simp [hlonger]))

theorem Spells.delimiter {c : Char} {rest : List Char} {us : List Word} (d : Token.Delimiter)
    (hd : d.spelling.toList = [c]) (h : Spells rest us) :
    Spells (c :: rest) (delimiterWord d :: us) := by
  have hend : (delimiterWord d).1.Ends rest := fun _ _ => rfl
  have hword := (delimiterWord_written d).spells hend h
  rwa [show (delimiterWord d).2.toList = [c] from hd] at hword

/-- An operator before a blank. -/
theorem Spells.operator {o : Token.Operator} {rest : List Char} {us : List Word}
    (h : Spells rest us) :
    Spells (o.spelling.toList ++ ' ' :: rest) (operatorWord o :: us) := by
  have hend := (operatorWord o).1.ends_separator (.inl rfl) rest
  exact (operatorWord_written o).spells hend (.blank (by decide) h)

namespace Node

variable {n a : Node} {ws vs : List Word}

theorem operandText_of_not_compound (h : n.kind.isCompound = false) :
    n.operandText = n.render.toList := by
  simp [operandText, operand, Part.operand, h]

theorem Shown.inside (h : n.Shown ws) : ∃ vs, n.ShownInside vs := by
  by_cases hk : n.kind.isCompound = true
  · have htext : n.operandText = '(' :: (n.render.toList ++ [')']) := by
      simp [operandText, operand, Part.operand, hk]
    have hd : Derives (NamesType (· = [])) .primary n (parenthesized ws) := by
      have hd := h.derives
      rw [Kind.tier, if_pos hk] at hd
      exact .parens rfl rfl hd
    refine ⟨_, .ofOperand (.ofPrimary hd), fun _ => .ofPrimary hd, fun _ => ?_, ?_⟩
    · exact ⟨_, _, htext, by decide⟩
    · intro rest us _ hus
      have hclose := Spells.delimiter (c := ')') .rightParen rfl hus
      have hinner := h.spells (by simp [Ceases]) hclose
      have hopen := Spells.delimiter (c := '(') .leftParen rfl hinner
      simpa [htext, parenthesized] using hopen
  · have htext := operandText_of_not_compound (by simpa using hk)
    have hd := h.derives
    rw [Kind.tier, if_neg hk] at hd
    refine ⟨ws, ?_, ?_, ?_, ?_⟩
    · split at hd
      · exact hd
      · exact .ofOperand hd
    · intro hprefixed
      rwa [if_neg (by simp [hprefixed])] at hd
    · rw [htext]
      exact h.opens (by simpa using hk)
    · intro rest us hrest hus
      rw [htext]
      exact h.spells (by simpa [hk] using hrest) hus

/-- An expression that begins with an operand is shown if what it writes behind the operand is read
as it should. -/
theorem ShownInside.begins {more : List Char} {ms : List Word} (ha : a.ShownInside vs)
    (hkind : n.kind.isCompound = true ∨ a.kind.isPrefixed = false)
    (htext : n.render.toList = a.operandText ++ more)
    (hd : Derives (NamesType (· = [])) n.kind.tier n (vs ++ ms))
    (hmore : ∀ {rest : List Char} {us : List Word},
      Ceases (!n.kind.isCompound && n.kind.takesPoint) rest → Spells rest us →
        Ceases a.kind.takesPoint (more ++ rest) ∧ Spells (more ++ rest) (ms ++ us)) :
    n.Shown (vs ++ ms) := by
  refine ⟨hd, fun hcompound _ => ?_, fun hrest hus => ?_⟩
  · have hprefixed : a.kind.isPrefixed = false := by
      rcases hkind with hkind | hkind
      · simp [hcompound] at hkind
      · exact hkind
    have hunary : a.kind ≠ .unary := by
      intro hunary
      rw [hunary] at hprefixed
      contradiction
    obtain ⟨c, cs, hopens, hc⟩ := ha.opens hunary
    exact ⟨c, cs ++ more, by rw [htext, hopens, List.cons_append], hc⟩
  · obtain ⟨hceases, hspells⟩ := hmore hrest hus
    rw [htext, List.append_assoc, List.append_assoc]
    exact ha.spells hceases hspells

theorem known_unary : Tier.unary.Known := by
  rintro level ⟨⟩

theorem Shown.expression (h : n.Shown ws) : Derives (NamesType (· = [])) .expression n ws := by
  refine h.derives.toExpression ?_
  intro level hlevel
  unfold Kind.tier at hlevel
  split at hlevel
  · contradiction
  · split at hlevel <;> contradiction

/-! ### The text of each kind of expression -/

section

variable (a b c i : Node) (name text type : String)

theorem toList_render_index : (texted .index "[]" .start [a, i]).render.toList =
    a.operandText ++ '[' :: (i.render.toList ++ [']']) := by
  rw [show (texted .index "[]" .start [a, i]).render = a.operand ++ "[" ++ i.render ++ "]" from rfl]
  simp [operandText]

theorem toList_render_call (given : List Node) :
    (texted .call "()" .start (a :: given)).render.toList =
      a.operandText ++ '(' :: ((commaList (renderAll given)).toList ++ [')']) := by
  rw [show (texted .call "()" .start (a :: given)).render =
    a.operand ++ "(" ++ commaList (renderAll given) ++ ")" from rfl]
  simp [operandText]

theorem toList_render_member :
    (texted .member "." .start [a, texted .identifier name .start []]).render.toList =
      a.operandText ++ '.' :: name.toList := by
  rw [show (texted .member "." .start [a, texted .identifier name .start []]).render =
    a.operand ++ "." ++ name from rfl]
  simp [operandText]

theorem toList_render_pointerMember :
    (texted .pointerMember "->" .start [a, texted .identifier name .start []]).render.toList =
      a.operandText ++ '-' :: '>' :: name.toList := by
  rw [show (texted .pointerMember "->" .start [a, texted .identifier name .start []]).render =
    a.operand ++ "->" ++ name from rfl]
  simp [operandText]

theorem toList_render_update :
    (texted .update text .start [a]).render.toList = a.operandText ++ text.toList := by
  rw [show (texted .update text .start [a]).render = a.operand ++ text from rfl]
  simp [operandText]

theorem toList_render_unary :
    (texted .unary text .start [a]).render.toList = text.toList ++ a.operandText := by
  rw [show (texted .unary text .start [a]).render = text ++ a.operand from rfl]
  simp [operandText]

theorem toList_render_cast : (texted .cast type .start [a]).render.toList =
    '(' :: (type.toList ++ [')']) ++ a.operandText := by
  rw [show (texted .cast type .start [a]).render = "(" ++ type ++ ")" ++ a.operand from rfl]
  simp [operandText]

theorem toList_render_sizeOfType : (texted .sizeOf type .start []).render.toList =
    "sizeof".toList ++ '(' :: (type.toList ++ [')']) := by
  rw [show (texted .sizeOf type .start []).render = "sizeof(" ++ type ++ ")" from rfl]
  simp

theorem toList_render_sizeOf : (plain .sizeOf .start [a]).render.toList =
    "sizeof".toList ++ '(' :: (a.render.toList ++ [')']) := by
  rw [show (plain .sizeOf .start [a]).render = "sizeof(" ++ a.render ++ ")" from rfl]
  simp

theorem toList_render_binary : (texted .binary text .start [a, b]).render.toList =
    a.operandText ++ ' ' :: (text.toList ++ ' ' :: b.operandText) := by
  rw [show (texted .binary text .start [a, b]).render =
    a.operand ++ " " ++ text ++ " " ++ b.operand from rfl]
  simp [operandText]

theorem toList_render_assignment : (texted .assignment text .start [a, b]).render.toList =
    a.operandText ++ ' ' :: (text.toList ++ ' ' :: b.operandText) := by
  rw [show (texted .assignment text .start [a, b]).render =
    a.operand ++ " " ++ text ++ " " ++ b.operand from rfl]
  simp [operandText]

theorem toList_render_conditional : (texted .conditional text .start [a, b, c]).render.toList =
    a.operandText ++
      ' ' :: '?' :: ' ' :: (b.operandText ++ ' ' :: ':' :: ' ' :: c.operandText) := by
  rw [show (texted .conditional text .start [a, b, c]).render =
    a.operand ++ " ? " ++ b.operand ++ " : " ++ c.operand from rfl]
  simp [operandText]

end

/-! ### What stands behind an operand -/

theorem ShownInside.index {i : Node} {is : List Word} (ha : a.ShownInside vs) (hi : i.Shown is)
    (hprefixed : a.kind.isPrefixed = false) :
    ∃ ws, (texted .index "[]" .start [a, i]).Shown ws := by
  have hd : Derives (NamesType (· = [])) .operand (texted .index "[]" .start [a, i])
      (vs ++ delimiterWord .leftBracket :: (is ++ [delimiterWord .rightBracket])) :=
    .index rfl rfl (ha.bare hprefixed) hi.expression
  refine ⟨_, ha.begins (.inr hprefixed) (toList_render_index a i) hd
    fun _ hus => ⟨by simp [Ceases], ?_⟩⟩
  have hclose := Spells.delimiter (c := ']') .rightBracket rfl hus
  have hinner := hi.spells (by simp [Ceases]) hclose
  have hopen := Spells.delimiter (c := '[') .leftBracket rfl hinner
  simpa using hopen

/-- Expressions with commas between them, before a parenthesis. -/
theorem spells_commaList {pairs : List (Node × List Word)} {rest : List Char} {us : List Word}
    (hpairs : ∀ p ∈ pairs, p.1.Shown p.2) (hus : Spells (')' :: rest) us) :
    Spells ((commaList (renderAll (pairs.map Prod.fst))).toList ++ ')' :: rest)
      (commaJoined (pairs.map Prod.snd) ++ us) := by
  induction pairs with
  | nil => exact hus
  | cons p pairs ih =>
      obtain ⟨hp, hpairs⟩ := List.forall_mem_cons.mp hpairs
      cases pairs with
      | nil =>
          have hshown := hp.spells (by simp [Ceases]) hus
          simpa [renderAll, commaList, commaJoined] using hshown
      | cons q pairs =>
          have hmore := Spells.blank (by decide : Text.isBlank ' ' = true) (ih hpairs)
          have hcomma := Spells.delimiter (c := ',') .comma rfl hmore
          have hshown := hp.spells (by simp [Ceases]) hcomma
          simpa [renderAll, commaList, commaJoined, String.intercalate_cons_cons] using hshown

theorem ShownInside.call {pairs : List (Node × List Word)} (ha : a.ShownInside vs)
    (hpairs : ∀ p ∈ pairs, p.1.Shown p.2) (hprefixed : a.kind.isPrefixed = false) :
    ∃ ws, (texted .call "()" .start (a :: pairs.map Prod.fst)).Shown ws := by
  have hd : Derives (NamesType (· = [])) .operand
      (texted .call "()" .start (a :: pairs.map Prod.fst))
      (vs ++ parenthesized (commaJoined (pairs.map Prod.snd))) :=
    .call rfl rfl (separated_commaJoined _) (ha.bare hprefixed) fun p hp => (hpairs p hp).expression
  refine ⟨_, ha.begins (.inr hprefixed) (toList_render_call a _) hd
    fun _ hus => ⟨by simp [Ceases], ?_⟩⟩
  have hclose := Spells.delimiter (c := ')') .rightParen rfl hus
  have hopen := Spells.delimiter (c := '(') .leftParen rfl (spells_commaList hpairs hclose)
  simpa [parenthesized] using hopen

theorem ShownInside.member {name : String} (ha : a.ShownInside vs)
    (hname : Word.Written (.identifier, name)) (hprefixed : a.kind.isPrefixed = false)
    (hnumber : a.kind ≠ .number) :
    ∃ ws, (texted .member "." .start [a, texted .identifier name .start []]).Shown ws := by
  have hdot : (delimiterWord .dot).1 = .delimiter .dot := rfl
  have hidentifier : ((.identifier, name) : Word).1 = .identifier := rfl
  have hd := Derives.member hdot hidentifier (ha.bare hprefixed)
  refine ⟨_, ha.begins (.inr hprefixed) (toList_render_member a name) hd
    fun hrest hus => ⟨by simp [Ceases, Kind.takesPoint, hprefixed, hnumber], ?_⟩⟩
  exact Spells.delimiter (c := '.') .dot rfl (hname.spells hrest.ends_name hus)

theorem ShownInside.pointerMember {name : String} (ha : a.ShownInside vs)
    (hname : Word.Written (.identifier, name)) (hprefixed : a.kind.isPrefixed = false) :
    ∃ ws, (texted .pointerMember "->" .start [a, texted .identifier name .start []]).Shown ws := by
  have harrow : (operatorWord .arrow).1 = .operator .arrow := rfl
  have hidentifier : ((.identifier, name) : Word).1 = .identifier := rfl
  have hd := Derives.pointerMember harrow hidentifier (ha.bare hprefixed)
  refine ⟨_, ha.begins (.inr hprefixed) (toList_render_pointerMember a name) hd
    fun hrest hus => ⟨by simp [Ceases], ?_⟩⟩
  exact (operatorWord_written .arrow).spells (ends_arrow _) (hname.spells hrest.ends_name hus)

theorem ShownInside.update {o : Token.Operator} (ha : a.ShownInside vs) (ho : o.isUpdate = true)
    (hprefixed : a.kind.isPrefixed = false) :
    ∃ ws, (texted .update o.spelling .start [a]).Shown ws := by
  have hd := Derives.update (o := operatorWord o) rfl ho (ha.bare hprefixed)
  have hsigns : ∀ o ∈ Token.Operator.all, o.isUpdate = true →
      o.spelling.toList.head?.toList ⊆ " )][(,-+".toList := by
    decide
  have hceases : ∀ rest, Ceases a.kind.takesPoint (o.spelling.toList ++ rest) := by
    intro rest c hc
    rw [List.head?_append, Option.or_of_isSome (by simp [o.spelling_ne_nil])] at hc
    exact .inl (hsigns o o.mem_all ho (Option.mem_toList.mpr hc))
  refine ⟨_, ha.begins (.inr hprefixed) (toList_render_update a _) hd
    fun hrest hus => ⟨hceases _, ?_⟩⟩
  exact (operatorWord_written o).spells (hrest.ends_update ho) hus

/-! ### What stands before an operand -/

/-- An expression that begins with something before its operand is shown if what it writes there is
read as it should. -/
theorem ShownInside.follows {before : List Char} {ms : List Word} (ha : a.ShownInside vs)
    (hn : n.kind.isPrefixed = true) (htext : n.render.toList = before ++ a.operandText)
    (hopens : n.kind ≠ .unary → OpensPlain before)
    (hd : Derives (NamesType (· = [])) .unary n (ms ++ vs))
    (hbefore : ∀ {rest : List Char} {us : List Word}, Spells (a.operandText ++ rest) us →
      Spells (before ++ (a.operandText ++ rest)) (ms ++ us)) :
    n.Shown (ms ++ vs) := by
  have hcompound := Kind.isCompound_of_isPrefixed hn
  refine ⟨?_, fun _ hunary => ?_, fun {rest us} hrest hus => ?_⟩
  · rw [Kind.tier, if_neg (by simp [hcompound]), if_pos hn]
    exact hd
  · obtain ⟨c, cs, rfl, hc⟩ := hopens hunary
    exact ⟨c, cs ++ a.operandText, by rw [htext, List.cons_append], hc⟩
  · rw [Kind.takesPoint, hn, Bool.not_true, Bool.false_and, Bool.and_false] at hrest
    rw [htext, List.append_assoc, List.append_assoc]
    exact hbefore (ha.spells hrest.of_false hus)

theorem exists_operandText_eq {text : String} (hunary : n.kind = .unary)
    (ht : n.text? = some text) : ∃ more, n.operandText = text.toList ++ more := by
  obtain ⟨kind, value, children, location⟩ := n
  obtain rfl : kind = .unary := hunary
  obtain rfl : value = some (.text text) := by
    cases value with
    | none => contradiction
    | some v =>
        cases v with
        | number => contradiction
        | text t => rw [Option.some.inj ht]
  refine ⟨(operandAt (renderAll children) 0).toList, ?_⟩
  rw [operandText, show operand ⟨.unary, some (.text text), children, location⟩ =
    text ++ operandAt (renderAll children) 0 from rfl, String.toList_append]

/-- Where an operator before an operand is not run together with one that the operand begins with,
it ends before the operand. -/
theorem ShownInside.ends {o : Token.Operator} (ha : a.ShownInside vs) (ho : o ≠ .slash)
    (hclear : a.kind ≠ .unary ∨ runTogether o.spelling (a.text?.getD "") = false)
    (rest : List Char) : (Token.Kind.operator o).Ends (a.operandText ++ rest) := by
  by_cases hunary : a.kind = .unary
  · have hapart := hclear.resolve_left (by simp [hunary])
    have hself := (Token.Lexeme.length_spelling o o.mem_all).2
    cases ht : a.text? with
    | none => simp [runTogether, ht, hself] at hapart
    | some text =>
        rw [ht, Option.getD_some, runTogether] at hapart
        obtain ⟨more, hmore⟩ := exists_operandText_eq hunary ht
        cases hchars : text.toList with
        | nil => simp [hchars, hself] at hapart
        | cons x cs =>
            intro c hc
            obtain rfl : x = c := by simpa [hmore, hchars] using hc
            simpa [Token.Kind.runsOn, ho, hchars] using hapart
  · exact ends_opensPlain ho (ha.opens hunary) rest

theorem ShownInside.unary {o : Token.Operator} (ha : a.ShownInside vs) (ho : o ≠ .slash)
    (hd : Derives (NamesType (· = [])) .unary (texted .unary o.spelling .start [a])
      ([operatorWord o] ++ vs))
    (hclear : a.kind ≠ .unary ∨ runTogether o.spelling (a.text?.getD "") = false) :
    ∃ ws, (texted .unary o.spelling .start [a]).Shown ws := by
  refine ⟨_, ha.follows rfl (toList_render_unary a _) (by simp [texted]) hd fun hus => ?_⟩
  exact (operatorWord_written o).spells (ha.ends ho hclear _) hus

theorem isUpdateText_spelling (o : Token.Operator) : isUpdateText o.spelling = o.isUpdate := by
  rw [isUpdateText, (Token.Lexeme.length_spelling o o.mem_all).2]
  rfl

theorem ShownInside.signed {o : Token.Operator} (ha : a.ShownInside vs) (ho : o.isSign = true)
    (hclear : (texted .unary o.spelling .start [a]).standsClear = true) :
    ∃ ws, (texted .unary o.spelling .start [a]).Shown ws := by
  have hupdate : o.isUpdate = false := by
    cases o <;> first | rfl | contradiction
  have hslash : o ≠ .slash := by
    rintro rfl
    contradiction
  refine ha.unary hslash (.signed (o := operatorWord o) rfl ho ha.derives) ?_
  simpa [standsClear, texted, text?, isUpdateText_spelling, hupdate] using hclear

theorem ShownInside.updated {o : Token.Operator} (ha : a.ShownInside vs) (ho : o.isUpdate = true)
    (hclear : (texted .unary o.spelling .start [a]).standsClear = true) :
    ∃ ws, (texted .unary o.spelling .start [a]).Shown ws := by
  have hslash : o ≠ .slash := by
    rintro rfl
    contradiction
  have hprefixed : a.kind.isPrefixed = false := by
    simpa [standsClear, texted, text?, isUpdateText_spelling, ho] using hclear
  have hunary : a.kind ≠ .unary := by
    intro hunary
    rw [hunary] at hprefixed
    contradiction
  exact ha.unary hslash (.updated (o := operatorWord o) rfl ho (ha.bare hprefixed)) (.inl hunary)

theorem ShownInside.cast {type : String} {ts : List Word} (ha : a.ShownInside vs)
    (ht : NamesType (· = []) type ts)
    (hts : ∀ {rest us}, (∀ c ∈ rest.head?, c = ')' ∨ c = '*') → Spells rest us →
      Spells (type.toList ++ rest) (ts ++ us)) :
    ∃ ws, (texted .cast type .start [a]).Shown ws := by
  have hd := Derives.cast (o := delimiterWord .leftParen) (c := delimiterWord .rightParen) rfl rfl
    ht ha.derives
  refine ⟨parenthesized ts ++ vs, ha.follows rfl (toList_render_cast a type)
    (fun _ => ⟨_, _, rfl, by decide⟩) ?_ ?_⟩
  · simpa [parenthesized] using hd
  · intro rest us hus
    have hclose := Spells.delimiter (c := ')') .rightParen rfl hus
    have hopen := Spells.delimiter (c := '(') .leftParen rfl (hts (by simp) hclose)
    simpa [parenthesized] using hopen

theorem opensPlain_sizeof (more : List Char) : OpensPlain ("sizeof".toList ++ more) :=
  ⟨'s', "izeof".toList ++ more, by simp, by decide⟩

/-- The keyword for sizes, before a parenthesis. -/
theorem spells_sizeof {rest : List Char} {us : List Word} (h : Spells ('(' :: rest) us) :
    Spells ("sizeof".toList ++ '(' :: rest) ((.keyword .sizeofKw, "sizeof") :: us) := by
  have hend : (Token.Kind.keyword .sizeofKw).Ends ('(' :: rest) := by
    intro c hc
    obtain rfl : '(' = c := by simpa using hc
    decide
  exact (Word.Written.keyword .sizeofKw).spells hend h

theorem shown_sizeOfType {type : String} {ts : List Word} (ht : NamesType (· = []) type ts)
    (hts : ∀ {rest us}, (∀ c ∈ rest.head?, c = ')' ∨ c = '*') → Spells rest us →
      Spells (type.toList ++ rest) (ts ++ us)) :
    ∃ ws, (texted .sizeOf type .start []).Shown ws := by
  have htext := toList_render_sizeOfType type
  have hd : Derives (NamesType (· = [])) .unary (texted .sizeOf type .start [])
      ((.keyword .sizeofKw, "sizeof") :: parenthesized ts) :=
    .sizeOfType rfl rfl rfl ht
  refine ⟨_, hd, fun _ _ => htext ▸ opensPlain_sizeof _, fun _ hus => ?_⟩
  have hclose := Spells.delimiter (c := ')') .rightParen rfl hus
  have hopen := Spells.delimiter (c := '(') .leftParen rfl (hts (by simp) hclose)
  rw [htext]
  simpa [parenthesized] using spells_sizeof hopen

theorem Shown.sizeOf (ha : a.Shown vs) : ∃ ws, (plain .sizeOf .start [a]).Shown ws := by
  have htext := toList_render_sizeOf a
  have hparens : Derives (NamesType (· = [])) .primary a (parenthesized vs) :=
    .parens rfl rfl ha.expression
  have hnot : ¬OpensType (parenthesized vs) := by
    simpa using hparens.not_opensType (.inl rfl) []
  have hd : Derives (NamesType (· = [])) .unary (plain .sizeOf .start [a])
      ((.keyword .sizeofKw, "sizeof") :: parenthesized vs) :=
    .sizeOf rfl hnot (.ofOperand (.ofPrimary hparens))
  refine ⟨_, hd, fun _ _ => htext ▸ opensPlain_sizeof _, fun _ hus => ?_⟩
  have hclose := Spells.delimiter (c := ')') .rightParen rfl hus
  have hinner := ha.spells (by simp [Ceases]) hclose
  have hopen := Spells.delimiter (c := '(') .leftParen rfl hinner
  rw [htext]
  simpa [parenthesized] using spells_sizeof hopen

/-! ### Operands with operators between them -/

theorem spells_between {b : Node} {vs' : List Word} {rest : List Char} {us : List Word}
    (o : Token.Operator) (hb : b.ShownInside vs') (hrest : Ceases false rest)
    (hus : Spells rest us) :
    Spells (' ' :: (o.spelling.toList ++ ' ' :: b.operandText) ++ rest)
      (operatorWord o :: vs' ++ us) := by
  have hoperator := Spells.operator (o := o) (hb.spells hrest.of_false hus)
  have hblank := Spells.blank (by decide : Text.isBlank ' ' = true) hoperator
  simpa using hblank

theorem ShownInside.compound {kind : Kind} {b : Node} {vs' : List Word} {o : Token.Operator}
    (ha : a.ShownInside vs) (hb : b.ShownInside vs') (hkind : kind = .binary ∨ kind = .assignment)
    (hd : Derives (NamesType (· = [])) .expression (texted kind o.spelling .start [a, b])
      (vs ++ operatorWord o :: vs')) :
    ∃ ws, (texted kind o.spelling .start [a, b]).Shown ws := by
  have hcompound : kind.isCompound = true := by
    rcases hkind with rfl | rfl <;> rfl
  have htext : (texted kind o.spelling .start [a, b]).render.toList =
      a.operandText ++ ' ' :: (o.spelling.toList ++ ' ' :: b.operandText) := by
    rcases hkind with rfl | rfl
    · exact toList_render_binary a b _
    · exact toList_render_assignment a b _
  have htier : kind.tier = .expression := by
    rw [Kind.tier, if_pos hcompound]
  refine ⟨_, ha.begins (.inl hcompound) htext (htier ▸ hd) fun {rest us} hrest hus => ?_⟩
  have hrest : Ceases false rest := by
    simpa [texted, hcompound] using hrest
  exact ⟨by simp [Ceases], spells_between o hb hrest hus⟩

theorem ShownInside.binary {b : Node} {vs' : List Word} {o : Token.Operator} {level : Nat}
    (ha : a.ShownInside vs) (hb : b.ShownInside vs')
    (ho : Grammar.isOfLevel (level + 1) (.operator o) = true) :
    ∃ ws, (texted .binary o.spelling .start [a, b]).Shown ws := by
  have hd := Derives.binary (o := operatorWord o) ho (ha.derives.toBinary rfl)
    (hb.derives.toBinary rfl)
  obtain ⟨_, hsign, hlevel⟩ := Grammar.exists_operator_of_isOfLevel ho
  refine ha.compound hb (.inl rfl) (hd.toExpression ?_)
  intro l hl
  obtain rfl := Tier.binary.inj hl
  exact (Token.Operator.level_bounds hlevel).2

theorem ShownInside.assignment {b : Node} {vs' : List Word} {o : Token.Operator}
    (ha : a.ShownInside vs) (hb : b.ShownInside vs')
    (ho : (Token.Kind.operator o).isAssignment = true) :
    ∃ ws, (texted .assignment o.spelling .start [a, b]).Shown ws :=
  ha.compound hb (.inr rfl) (.assignment (o := operatorWord o) ho
    (ha.derives.toConditional known_unary rfl) (hb.derives.toExpression known_unary))

theorem ShownInside.conditional {b c : Node} {bs cs : List Word} (ha : a.ShownInside vs)
    (hb : b.ShownInside bs) (hc : c.ShownInside cs) :
    ∃ ws, (texted .conditional "?:" .start [a, b, c]).Shown ws := by
  have hd : Derives (NamesType (· = [])) .conditional (texted .conditional "?:" .start [a, b, c])
      (vs ++ operatorWord .question :: (bs ++ delimiterWord .colon :: cs)) :=
    .conditional rfl rfl (ha.derives.toBinary rfl) (hb.derives.toExpression known_unary)
      (hc.derives.toConditional known_unary rfl)
  refine ⟨_, ha.begins (.inl rfl) (toList_render_conditional a b c _) (.ofConditional hd)
    fun {rest us} hrest hus => ?_⟩
  have hrest : Ceases false rest := hrest
  have hlast := Spells.blank (by decide : Text.isBlank ' ' = true) (hc.spells hrest.of_false hus)
  have hcolon := Spells.blank (by decide : Text.isBlank ' ' = true)
    (Spells.delimiter (c := ':') .colon rfl hlast)
  have hmiddle := hb.spells (by simp [Ceases]) hcolon
  have hall := Spells.blank (by decide : Text.isBlank ' ' = true)
    (Spells.operator (o := .question) hmiddle)
  exact ⟨by simp [Ceases], by simpa [Token.Operator.spelling] using hall⟩

/-! ### Primaries -/

theorem shown_word {w : Word} (hw : w.Written) (hplain : OpensPlain w.2.toList)
    (htext : n.render = w.2) (hn : n.kind.tier = .operand)
    (hd : Derives (NamesType (· = [])) .primary n [w])
    (hends : ∀ {rest : List Char}, Ceases n.kind.takesPoint rest → w.1.Ends rest) :
    n.Shown [w] := by
  have hcompound : n.kind.isCompound = false := by
    by_contra hk
    rw [Kind.tier, if_pos (by simpa using hk)] at hn
    contradiction
  refine ⟨hn ▸ .ofPrimary hd, fun _ _ => htext ▸ hplain, fun hrest hus => ?_⟩
  rw [htext]
  exact hw.spells (hends (by simpa [hcompound] using hrest)) hus

theorem not_sign_of_startsWord {c : Char} (h : startsWord c = true) :
    c ∉ "+-*/%=!<>&|^~?".toList := by
  have hsigns : ∀ c ∈ "+-*/%=!<>&|^~?".toList, startsWord c = false :=
    List.all_iff_forall_prop.mp (by decide)
  intro hmem
  rw [hsigns c hmem] at h
  contradiction

theorem shown_identifier {name : String} (hname : Word.Written (.identifier, name)) :
    (texted .identifier name .start []).Shown [(.identifier, name)] := by
  have hplain : OpensPlain name.toList := by
    cases hname with
    | identifier hc => exact ⟨_, _, String.toList_ofList, not_sign_of_startsWord hc⟩
  have hidentifier : ((.identifier, name) : Word).1 = .identifier := rfl
  exact shown_word hname hplain rfl rfl (.identifier hidentifier) Ceases.ends_name

theorem shown_number {r : Nat} (hr : r < Binary64.overflow) :
    ∃ ws, Shown ⟨.number, some (.number (.finite false r)), [], .start⟩ ws := by
  have hwritten := Binary64.written_text r
  have hplain : OpensPlain (Binary64.finite false r).text.toList := by
    obtain ⟨c, cs, htext, hc, -⟩ := (Binary64.shortest .upward r).positional_eq_cons
    refine ⟨c, cs, by simp [Binary64.text, signed, htext], fun hmem => ?_⟩
    have hsigns : ∀ c ∈ "+-*/%=!<>&|^~?".toList, c.isDigit = false :=
      List.all_iff_forall_prop.mp (by decide)
    rw [hsigns c hmem] at hc
    contradiction
  exact ⟨_, shown_word hwritten hplain rfl rfl (.number rfl (Numeral.read_text hr))
    Ceases.ends_number⟩

/-- A number that the source spells has no sign, and is shown by its shortest text. -/
theorem shown_number_of_read {w : Word} {x : Binary64} (hwritten : w.Written) (hw : w.1 = .number)
    (hx : Numeral.read w.2 = some x)
    (hfinite : isFinite ⟨.number, some (.number x), [], .start⟩ = true) :
    ∃ ws, Shown ⟨.number, some (.number x), [], .start⟩ ws := by
  cases x with
  | nan => contradiction
  | infinite => contradiction
  | finite negative r =>
      cases hwritten with
      | number hc _ =>
          obtain ⟨rfl, hr⟩ := Numeral.read_eq_finite hc hx
          exact shown_number hr
      | _ => contradiction

theorem shown_string {inner : List Char} (h : Token.Lexeme.Inside '"' inner) :
    ∃ ws, (texted .string (String.ofList inner) .start []).Shown ws := by
  have htext : (texted .string (String.ofList inner) .start []).render =
      String.ofList ('"' :: (inner ++ ['"'])) := by
    rw [show (texted .string (String.ofList inner) .start []).render =
      "\"" ++ String.ofList inner ++ "\"" from rfl, ← String.toList_inj]
    simp
  have hquoted := Grammar.unquoted_quoted (by decide : '"'.toNat < 128) inner
  have hplain : OpensPlain (String.ofList ('"' :: (inner ++ ['"']))).toList :=
    ⟨'"', _, String.toList_ofList, by decide⟩
  have hwritten := Word.Written.string h
  generalize String.ofList ('"' :: (inner ++ ['"'])) = quoted at htext hquoted hplain hwritten
  have hall : ∀ v ∈ [((.string, quoted) : Word)], v.1 = .string := by simp
  have hd : Derives (NamesType (· = [])) .primary _ [(.string, quoted)] := .strings hall
  rw [List.map_singleton, hquoted, String.join_cons, String.join_nil, String.append_empty] at hd
  exact ⟨_, shown_word hwritten hplain htext rfl hd fun _ _ _ => rfl⟩

theorem shown_character {inner : List Char} (h : Token.Lexeme.Inside '\'' inner) :
    ∃ ws, (texted .character (String.ofList inner) .start []).Shown ws := by
  have htext : (texted .character (String.ofList inner) .start []).render =
      String.ofList ('\'' :: (inner ++ ['\''])) := by
    rw [show (texted .character (String.ofList inner) .start []).render =
      "'" ++ String.ofList inner ++ "'" from rfl, ← String.toList_inj]
    simp
  have hquoted := Grammar.unquoted_quoted (by decide : '\''.toNat < 128) inner
  have hplain : OpensPlain (String.ofList ('\'' :: (inner ++ ['\'']))).toList :=
    ⟨'\'', _, String.toList_ofList, by decide⟩
  have hwritten := Word.Written.character h
  generalize String.ofList ('\'' :: (inner ++ ['\''])) = quoted at htext hquoted hplain hwritten
  have hd : Derives (NamesType (· = [])) .primary
      (texted .character (Grammar.unquoted quoted) .start []) [(.character, quoted)] :=
    .character (w := (.character, quoted)) rfl
  rw [hquoted] at hd
  exact ⟨_, shown_word hwritten hplain htext rfl hd fun _ _ _ => rfl⟩

/-! ## Trees -/

/-- The numbers and the operands of a tree can be told from its text. -/
def IsClear (n : Node) : Prop :=
  ∀ m ∈ n.preorder, m.standsClear = true ∧ m.isFinite = true

instance (n : Node) : Decidable n.IsClear :=
  inferInstanceAs (Decidable (∀ m ∈ n.preorder, m.standsClear = true ∧ m.isFinite = true))

theorem IsClear.child {kind : Kind} {value : Option Value} {children : List Node}
    {location : Position} (h : IsClear ⟨kind, value, children, location⟩) {c : Node}
    (hc : c ∈ children) : c.IsClear :=
  (forall_preorder.mp h).2 c hc

theorem IsClear.root (h : n.IsClear) : n.standsClear = true ∧ n.isFinite = true :=
  (forall_preorder.mp h).1

/-- Several trees that are shown, each with its words. -/
theorem exists_pairs {ns : List Node} (h : ∀ n ∈ ns, ∃ ws, n.Shown ws) :
    ∃ pairs : List (Node × List Word), pairs.map Prod.fst = ns ∧ ∀ p ∈ pairs, p.1.Shown p.2 := by
  induction ns with
  | nil => exact ⟨[], rfl, by simp⟩
  | cons n ns ih =>
      obtain ⟨⟨ws, hws⟩, hns⟩ := List.forall_mem_cons.mp h
      obtain ⟨pairs, rfl, hpairs⟩ := ih hns
      exact ⟨(n, ws) :: pairs, rfl, List.forall_mem_cons.mpr ⟨hws, hpairs⟩⟩

theorem exists_inside (h : ∃ ws, n.Shown ws) : ∃ vs, n.ShownInside vs := by
  obtain ⟨ws, hws⟩ := h
  exact hws.inside

/-- Each rule writes the words of its own around those of its parts, which are shown inside. -/
theorem shown_of_derives {tier : Tier} (h : Derives (NamesType Braced) tier n ws)
    (hcut : ∀ w ∈ ws, w.Cut) (hclear : n.IsClear) : ∃ vs, n.Shown vs := by
  induction h with
  | @number w x hw hx =>
      have hwritten := hcut w (by simp) (by simp [hw]) (by simp [hw])
      exact shown_number_of_read hwritten hw hx hclear.root.2
  | strings h =>
      obtain ⟨inner, hinner, hinside⟩ := exists_joined h hcut
      rw [hinner]
      exact shown_string hinside
  | character hw =>
      obtain ⟨inner, hinner, hinside⟩ := (hcut _ (by simp)).character hw
      rw [hinner]
      exact shown_character hinside
  | identifier hw =>
      exact ⟨_, shown_identifier ((hcut _ (by simp)).identifier hw)⟩
  | parens _ _ _ ih =>
      exact ih (fun w hw => hcut w (by simp [hw])) hclear
  | index _ _ _ _ iha ihi =>
      obtain ⟨vs, hvs⟩ :=
        exists_inside (iha (fun w hw => hcut w (by simp [hw])) (hclear.child (by simp)))
      obtain ⟨us, hus⟩ := ihi (fun w hw => hcut w (by simp [hw])) (hclear.child (by simp))
      exact hvs.index hus (by simpa [standsClear, texted] using hclear.root.1)
  | @call f fs gs given o c _ _ hgs _ _ ihf ihs =>
      obtain ⟨vs, hvs⟩ :=
        exists_inside (ihf (fun w hw => hcut w (by simp [hw])) (hclear.child (by simp)))
      have hgiven : ∀ n ∈ given.map Prod.fst, ∃ ws, n.Shown ws := by
        intro n hn
        obtain ⟨p, hp, rfl⟩ := List.mem_map.mp hn
        refine ihs p hp (fun w hw => hcut w ?_) (hclear.child (List.mem_cons_of_mem _ hn))
        have hmem := hgs.mem (List.mem_map_of_mem hp) hw
        simp [hmem]
      obtain ⟨pairs, hfst, hpairs⟩ := exists_pairs hgiven
      rw [← hfst] at hclear ⊢
      exact hvs.call hpairs (by simpa [standsClear, texted] using hclear.root.1)
  | @member a as o name hop hname _ ih =>
      obtain ⟨vs, hvs⟩ :=
        exists_inside (ih (fun w hw => hcut w (by simp [hw])) (hclear.child (by simp)))
      obtain rfl := (hcut o (by simp)).delimiter hop
      have hroot := hclear.root.1
      simp only [standsClear, texted, Bool.and_eq_true, Bool.not_eq_true', decide_eq_true_eq]
        at hroot
      exact hvs.member ((hcut name (by simp)).identifier hname) hroot.1 hroot.2
  | @pointerMember a as o name hop hname _ ih =>
      obtain ⟨vs, hvs⟩ :=
        exists_inside (ih (fun w hw => hcut w (by simp [hw])) (hclear.child (by simp)))
      obtain rfl := (hcut o (by simp)).operator hop
      exact hvs.pointerMember ((hcut name (by simp)).identifier hname)
        (by simpa [standsClear, texted] using hclear.root.1)
  | @update a as o sign hop hsign _ ih =>
      obtain ⟨vs, hvs⟩ :=
        exists_inside (ih (fun w hw => hcut w (by simp [hw])) (hclear.child (by simp)))
      obtain rfl := (hcut o (by simp)).operator hop
      exact hvs.update hsign (by simpa [standsClear, texted] using hclear.root.1)
  | @signed a as o sign hop hsign _ ih =>
      obtain ⟨vs, hvs⟩ :=
        exists_inside (ih (fun w hw => hcut w (by simp [hw])) (hclear.child (by simp)))
      obtain rfl := (hcut o (by simp)).operator hop
      exact hvs.signed hsign hclear.root.1
  | @updated a as o sign hop hsign _ ih =>
      obtain ⟨vs, hvs⟩ :=
        exists_inside (ih (fun w hw => hcut w (by simp [hw])) (hclear.child (by simp)))
      obtain rfl := (hcut o (by simp)).operator hop
      exact hvs.updated hsign hclear.root.1
  | sizeOfType _ _ _ ht =>
      obtain ⟨vs, hnames, hspells⟩ := ht.spells fun w hw => hcut w (by simp [hw])
      exact shown_sizeOfType hnames hspells
  | sizeOf _ _ _ ih =>
      obtain ⟨vs, hvs⟩ := ih (fun w hw => hcut w (by simp [hw])) (hclear.child (by simp))
      exact hvs.sizeOf
  | cast _ _ ht _ ih =>
      obtain ⟨ts, hnames, hspells⟩ := ht.spells fun w hw => hcut w (by simp [hw])
      obtain ⟨vs, hvs⟩ :=
        exists_inside (ih (fun w hw => hcut w (by simp [hw])) (hclear.child (by simp)))
      exact hvs.cast hnames hspells
  | @binary level a b as bs o hop _ _ iha ihb =>
      obtain ⟨vs, hvs⟩ :=
        exists_inside (iha (fun w hw => hcut w (by simp [hw])) (hclear.child (by simp)))
      obtain ⟨us, hus⟩ :=
        exists_inside (ihb (fun w hw => hcut w (by simp [hw])) (hclear.child (by simp)))
      obtain ⟨sign, hsign, -⟩ := Grammar.exists_operator_of_isOfLevel hop
      obtain rfl := (hcut o (by simp)).operator hsign
      exact hvs.binary hus hop
  | conditional _ _ _ _ _ iha ihb ihc =>
      obtain ⟨vs, hvs⟩ :=
        exists_inside (iha (fun w hw => hcut w (by simp [hw])) (hclear.child (by simp)))
      obtain ⟨us, hus⟩ :=
        exists_inside (ihb (fun w hw => hcut w (by simp [hw])) (hclear.child (by simp)))
      obtain ⟨ws, hws⟩ :=
        exists_inside (ihc (fun w hw => hcut w (by simp [hw])) (hclear.child (by simp)))
      exact hvs.conditional hus hws
  | @assignment a b as bs o hop _ _ iha ihb =>
      obtain ⟨vs, hvs⟩ :=
        exists_inside (iha (fun w hw => hcut w (by simp [hw])) (hclear.child (by simp)))
      obtain ⟨us, hus⟩ :=
        exists_inside (ihb (fun w hw => hcut w (by simp [hw])) (hclear.child (by simp)))
      obtain ⟨sign, hsign⟩ := Token.Kind.exists_operator_of_isAssignment hop
      obtain rfl := (hcut o (by simp)).operator hsign
      exact hvs.assignment hus hop
  | ofPrimary _ ih => exact ih hcut hclear
  | ofOperand _ ih => exact ih hcut hclear
  | ofUnary _ ih => exact ih hcut hclear
  | ofTighter _ ih => exact ih hcut hclear
  | ofBinary _ ih => exact ih hcut hclear
  | ofConditional _ ih => exact ih hcut hclear

end Node

end CSurvey
