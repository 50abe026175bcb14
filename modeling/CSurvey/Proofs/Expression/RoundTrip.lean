import CSurvey.Proofs.Expression.Inversion
import CSurvey.Proofs.Expression.Rendering

/-! # Expressions that read back

The text of an expression and the texts of all its parts are read as what they show exactly if
each node stands clear of its operand and each number is finite. -/

namespace CSurvey

open Token (startsWord continuesWord continuesNumber)

/-! ## What a text begins with -/

/-- The words of a text have their characters from the text. -/
theorem Spells.mem {cs : List Char} {ws : List Word} (h : Spells cs ws) {w : Word} (hw : w ∈ ws)
    {x : Char} (hx : x ∈ w.2.toList) : x ∈ cs := by
  induction h with
  | nil => contradiction
  | blank _ _ ih => exact List.mem_cons_of_mem _ (ih hw)
  | comment _ hfirst _ _ ih =>
      rw [← Token.Lexeme.append_of_first hfirst]
      exact List.mem_append_right _ (ih hw)
  | word _ hfirst _ _ ih =>
      rw [← Token.Lexeme.append_of_first hfirst]
      rcases List.mem_cons.mp hw with rfl | hw
      · exact List.mem_append_left _ (by simpa using hx)
      · exact List.mem_append_right _ (ih hw)

theorem Spells.cut {cs : List Char} {ws : List Word} (h : Spells cs ws) : ∀ w ∈ ws, w.Cut :=
  h.written

/-- The first word of a text that begins like a word is a name or a keyword. -/
theorem Spells.head_word {c : Char} {cs : List Char} {ws : List Word} (hc : startsWord c = true)
    (h : Spells (c :: cs) ws) :
    ∃ w ws', ws = w :: ws' ∧ (w.1 = .identifier ∨ ∃ k, w.1 = .keyword k) := by
  have htake : ∀ x ∈ cs.takeWhile continuesWord, continuesWord x = true :=
    fun _ => List.mem_takeWhile_imp
  have hfirst := Token.Lexeme.first_word hc htake (Token.Lexeme.head?_dropWhile cs)
  rw [List.takeWhile_append_dropWhile] at hfirst
  have hblank := Token.isBlank_of_startsWord hc
  cases hk : Token.Keyword.ofWord? (c :: cs.takeWhile continuesWord) with
  | none =>
      rw [hk] at hfirst
      obtain ⟨ws', rfl, -⟩ := h.of_first hblank hfirst rfl
      exact ⟨_, ws', rfl, .inl rfl⟩
  | some k =>
      rw [hk] at hfirst
      obtain ⟨ws', rfl, -⟩ := h.of_first hblank hfirst rfl
      exact ⟨_, ws', rfl, .inr ⟨k, rfl⟩⟩

/-- The first word of a text that begins like a number is a number. -/
theorem Spells.head_number {c : Char} {cs : List Char} {ws : List Word} (hc : c.isDigit = true)
    (h : Spells (c :: cs) ws) :
    ∃ w ws', ws = w :: ws' ∧ w.1 = .number ∧ Spells (cs.dropWhile continuesNumber) ws' := by
  have htake : ∀ x ∈ cs.takeWhile continuesNumber, continuesNumber x = true :=
    fun _ => List.mem_takeWhile_imp
  have hfirst := Token.Lexeme.first_number hc htake (Token.Lexeme.head?_dropWhile cs)
  rw [List.takeWhile_append_dropWhile] at hfirst
  have hblank := (Token.digits_plain c (Token.digit_mem hc)).1
  obtain ⟨ws', rfl, hws'⟩ := h.of_first hblank hfirst rfl
  exact ⟨_, ws', rfl, rfl, hws'⟩

theorem Token.Lexeme.sign_plain : ∀ c ∈ "+-*!~&".toList, c ∉ "\"'#".toList ∧ c ≠ '/' ∧
    c.isDigit = false ∧ startsWord c = false ∧ Text.isBlank c = false ∧
      (Operator.ofSpelling? [c]).isSome = true :=
  List.all_iff_forall_prop.mp (by decide)

theorem operator_text_mem {o : Token.Operator} (ho : (o.isSign || o.isUpdate) = true) :
    ∃ c cs, o.spelling.toList = c :: cs ∧ c ∈ "+-*!~&".toList := by
  have hmem : ∀ o ∈ Token.Operator.all, (o.isSign || o.isUpdate) = true →
      o.spelling.toList.head?.toList ⊆ "+-*!~&".toList := by
    decide
  obtain ⟨c, cs, hspelling⟩ := List.exists_cons_of_ne_nil o.spelling_ne_nil
  exact ⟨c, cs, hspelling, hmem o o.mem_all ho (by simp [hspelling])⟩

/-- The first word of a text that begins with an operator before an operand is an operator, the
longest there is. -/
theorem Spells.head_operator {o : Token.Operator} {rest : List Char} {ws : List Word}
    (ho : (o.isSign || o.isUpdate) = true) (h : Spells (o.spelling.toList ++ rest) ws) :
    ∃ longest ws', Token.Lexeme.operator? (o.spelling.toList ++ rest) = some longest ∧
      ws = operatorWord longest :: ws' ∧
        Spells ((o.spelling.toList ++ rest).drop longest.spelling.toList.length) ws' := by
  obtain ⟨c, cs, htext, hc⟩ := operator_text_mem ho
  rw [htext, List.cons_append] at h ⊢
  obtain ⟨hplain, hslash, hdigit, hword, hblank, hself⟩ := Token.Lexeme.sign_plain c hc
  have hsome : (Token.Lexeme.operator? (c :: (cs ++ rest))).isSome = true := by
    rw [Token.Lexeme.operator?, List.findSome?_isSome_iff]
    exact ⟨1, by simp, by simpa using hself⟩
  obtain ⟨longest, hlongest⟩ := Option.isSome_iff_exists.mp hsome
  have hfirst : Token.Lexeme.first c (cs ++ rest) =
      .piece (.operator longest) longest.spelling.toList
        ((c :: (cs ++ rest)).drop longest.spelling.toList.length) := by
    rw [Token.Lexeme.first_eq_sign hplain (fun h => absurd h hslash) hdigit hword,
      Token.Lexeme.sign, hlongest]
  obtain ⟨ws', rfl, hws'⟩ := h.of_first hblank hfirst rfl
  rw [String.ofList_toList]
  exact ⟨longest, ws', hlongest, rfl, hws'⟩

/-- A number that is not finite is shown by no word of a number. -/
theorem Spells.head_not_finite {x : Binary64} (hx : ∀ negative r, x ≠ .finite negative r)
    {rest : List Char} {ws : List Word} (h : Spells (x.text.toList ++ rest) ws) :
    ∃ w ws', ws = w :: ws' ∧ w.1 ≠ .number ∧ w.1 ≠ .delimiter .leftParen := by
  have hword : ∀ {c : Char} {cs : List Char}, startsWord c = true → Spells (c :: cs) ws →
      ∃ w ws', ws = w :: ws' ∧ w.1 ≠ .number ∧ w.1 ≠ .delimiter .leftParen := by
    intro c cs hc hs
    obtain ⟨w, ws', rfl, hw | ⟨k, hw⟩⟩ := hs.head_word hc
    · exact ⟨w, ws', rfl, by simp [hw], by simp [hw]⟩
    · exact ⟨w, ws', rfl, by simp [hw], by simp [hw]⟩
  cases x with
  | nan => exact hword (c := 'N') (by decide) h
  | infinite negative =>
      cases negative with
      | false => exact hword (c := 'i') (by decide) h
      | true =>
          obtain ⟨o, ws', -, rfl, -⟩ := Spells.head_operator (o := .minus) rfl h
          exact ⟨_, ws', rfl, by simp [operatorWord], by simp [operatorWord]⟩
  | finite negative r => exact absurd rfl (hx negative r)

/-- A type begins with a keyword that starts types. -/
theorem NamesType.starts {type : String} {ts : List Word} (h : NamesType Braced type ts)
    (hcut : ∀ w ∈ ts, w.Cut) : ∃ (k : Token.Keyword) (more : List Char),
      (Token.Kind.keyword k).startsType = true ∧ type.toList = k.spelling.toList ++ more ∧
        ∀ c ∈ more.head?, continuesWord c = false := by
  induction h with
  | plain h =>
      obtain ⟨vs, hvs, rfl, hwritten⟩ := h.spelled hcut
      obtain ⟨w, ws, rfl, hw⟩ := (NamesType.plain hvs).head
      obtain ⟨hword, hk⟩ := hwritten w (by simp)
      cases hword with
      | keyword k =>
          cases ws with
          | nil => exact ⟨k, [], hw, by simp, by simp⟩
          | cons v ws =>
              refine ⟨k, ' ' :: (" ".intercalate ((v :: ws).map Prod.snd)).toList, hw, ?_, ?_⟩
              · simp [String.intercalate_cons_cons]
              · intro c hc
                obtain rfl : ' ' = c := by simpa using hc
                decide
      | _ => simp [Token.Kind.startsType, Token.Kind.isBaseType, Token.Kind.isTypeModifier] at hw
  | star _ _ ih =>
      obtain ⟨k, more, hk, htext, hmore⟩ := ih fun v hv => hcut v (List.mem_append_left _ hv)
      refine ⟨k, more ++ ['*'], hk, by simp [htext], ?_⟩
      cases more with
      | nil =>
          intro c hc
          obtain rfl : '*' = c := by simpa using hc
          decide
      | cons c more => simpa using hmore

/-! ## Something before an operand -/

/-- The words begin like an expression that has something before its operand. -/
def BeginsPrefixed (ws : List Word) : Prop :=
  (∃ w ws', ws = w :: ws' ∧ ((∃ o, w.1 = .operator o) ∨ ∃ k, w.1 = .keyword k)) ∨ OpensType ws

theorem Derives.not_beginsPrefixed {Names : String → List Word → Prop} {t : Node}
    {ws us : List Word} (h : Derives Names .operand t ws) : ¬BeginsPrefixed (ws ++ us) := by
  rintro (⟨w, ws', heq, hk⟩ | hopen)
  · obtain ⟨v, vs, rfl, hoperator, hkeyword⟩ := h.head_operand (.inr rfl)
    obtain ⟨rfl, -⟩ := List.cons.inj heq
    rcases hk with ⟨o, ho⟩ | ⟨k, hk⟩
    · exact hoperator o ho
    · exact hkeyword k hk
  · exact h.not_opensType (.inr rfl) us hopen

namespace Node

variable {n a : Node} {tier : Tier} {ws vs as : List Word} {more : List Char}

/-- The text of an expression with something before its operand is read as one. -/
theorem beginsPrefixed_of_derives (h : Derives (NamesType Braced) tier n ws)
    (hcut : ∀ w ∈ ws, w.Cut) (hn : n.kind.isPrefixed = true)
    (hs : Spells (n.render.toList ++ more) vs) : BeginsPrefixed vs := by
  have hoperator : ∀ {a : Node} {sign : Token.Operator}, (sign.isSign || sign.isUpdate) = true →
      Spells ((texted .unary sign.spelling .start [a]).render.toList ++ more) vs →
        BeginsPrefixed vs := by
    intro a sign hsign hs
    rw [toList_render_unary, List.append_assoc] at hs
    obtain ⟨o, vs, -, rfl, -⟩ := hs.head_operator hsign
    exact .inl ⟨_, vs, rfl, .inl ⟨o, rfl⟩⟩
  have hkeyword : ∀ {rest : List Char}, Spells ("sizeof".toList ++ '(' :: rest) vs →
      BeginsPrefixed vs := by
    intro rest hs
    have hend : (Token.Kind.keyword .sizeofKw).Ends ('(' :: rest) := by
      intro c hc
      obtain rfl : '(' = c := by simpa using hc
      decide
    obtain ⟨vs, rfl, -⟩ := (Word.Written.keyword .sizeofKw).of_spells hend hs
    exact .inl ⟨_, vs, rfl, .inr ⟨.sizeofKw, rfl⟩⟩
  induction h with
  | parens _ _ _ ih => exact ih (fun w hw => hcut w (by simp [hw])) hn hs
  | ofPrimary _ ih => exact ih hcut hn hs
  | ofOperand _ ih => exact ih hcut hn hs
  | ofUnary _ ih => exact ih hcut hn hs
  | ofTighter _ ih => exact ih hcut hn hs
  | ofBinary _ ih => exact ih hcut hn hs
  | ofConditional _ ih => exact ih hcut hn hs
  | @signed a as o sign hop hsign =>
      obtain rfl := (hcut o (by simp)).operator hop
      exact hoperator (by simp [hsign]) hs
  | @updated a as o sign hop hsign =>
      obtain rfl := (hcut o (by simp)).operator hop
      exact hoperator (by simp [hsign]) hs
  | sizeOfType =>
      rw [toList_render_sizeOfType, List.append_assoc] at hs
      exact hkeyword hs
  | sizeOf =>
      rw [toList_render_sizeOf, List.append_assoc] at hs
      exact hkeyword hs
  | @cast o c type a ts as _ _ ht =>
      obtain ⟨k, rest, hk, htype, hrest⟩ := ht.starts fun w hw => hcut w (by simp [hw])
      have htext : (texted .cast type .start [a]).render.toList ++ more =
          '(' :: (k.spelling.toList ++ (rest ++ ')' :: (a.operandText ++ more))) := by
        simp [toList_render_cast, htype]
      rw [htext] at hs
      have hopen : (Token.Kind.delimiter .leftParen).Ends
          (k.spelling.toList ++ (rest ++ ')' :: (a.operandText ++ more))) := fun _ _ => rfl
      obtain ⟨us, rfl, hus⟩ := (Word.Written.delimiter .leftParen).of_spells hopen hs
      have hend : (Token.Kind.keyword k).Ends (rest ++ ')' :: (a.operandText ++ more)) := by
        cases rest with
        | nil =>
            intro c hc
            obtain rfl : ')' = c := by simpa using hc
            show continuesWord ')' = false
            decide
        | cons c rest => simpa [Token.Kind.Ends, Token.Kind.runsOn] using hrest
      obtain ⟨us, rfl, -⟩ := (Word.Written.keyword k).of_spells hend hus
      exact .inr ⟨_, _, us, rfl, rfl, hk⟩
  | _ => contradiction

/-- What is read as an operand does not begin with the text of an expression that has something
before its own operand. -/
theorem not_isPrefixed_of_spells (ha : Derives (NamesType Braced) tier a as)
    (hcut : ∀ w ∈ as, w.Cut) (hs : Spells (a.operandText ++ more) ws)
    (hd : Derives (NamesType Braced) .operand n ws) : a.kind.isPrefixed = false := by
  by_contra hprefixed
  have hprefixed : a.kind.isPrefixed = true := by simpa using hprefixed
  rw [operandText_of_not_compound (Kind.isCompound_of_isPrefixed hprefixed)] at hs
  have hbegins := beginsPrefixed_of_derives ha hcut hprefixed hs
  have hbefore : BeginsPrefixed (ws ++ []) := by simpa using hbegins
  exact hd.not_beginsPrefixed hbefore

end Node

/-! ## A point behind a number -/

/-- A number that a numeral was read as is not negative. -/
theorem Derives.value_of_kind {Names : String → List Word → Prop} {tier : Tier} {t : Node}
    {ws : List Word} (h : Derives Names tier t ws) (hcut : ∀ w ∈ ws, w.Cut)
    (hk : t.kind = .number) :
    ∃ x, t = ⟨.number, some (.number x), [], .start⟩ ∧
      ∀ negative r, x = .finite negative r → negative = false := by
  induction h with
  | @number w x hw hx =>
      refine ⟨x, rfl, ?_⟩
      rintro negative r rfl
      have hwritten := hcut w (by simp) (by simp [hw]) (by simp [hw])
      cases hwritten with
      | number hc _ => exact (Numeral.read_eq_finite hc hx).1
      | _ => contradiction
  | parens _ _ _ ih => exact ih (fun w hw => hcut w (by simp [hw])) hk
  | ofPrimary _ ih => exact ih hcut hk
  | ofOperand _ ih => exact ih hcut hk
  | ofUnary _ ih => exact ih hcut hk
  | ofTighter _ ih => exact ih hcut hk
  | ofBinary _ ih => exact ih hcut hk
  | ofConditional _ ih => exact ih hcut hk
  | _ => contradiction

namespace Node

variable {n a : Node} {tier : Tier} {ws vs as : List Word}

/-- A point behind a number does not ask for a member. -/
theorem not_number_of_spells {name : String} (ha : Derives (NamesType Braced) tier a as)
    (hcut : ∀ w ∈ as, w.Cut) (hname : Word.Written (.identifier, name))
    (hs : Spells (a.operandText ++ '.' :: name.toList) ws)
    (hd : Derives (NamesType Braced) .operand
      (texted .member "." .start [a, texted .identifier name .start []]) ws) :
    a.kind ≠ .number := by
  intro hk
  obtain ⟨x, rfl, hx⟩ := ha.value_of_kind hcut hk
  have htext : operandText ⟨.number, some (.number x), [], .start⟩ = x.text.toList := rfl
  rw [htext] at hs
  -- Without parentheses around the whole, the first word is the number.
  have hwhole : ∀ {w : Word} {ws' : List Word}, ws = w :: ws' → w.1 ≠ .delimiter .leftParen →
      w.1 = .number ∧ ∃ o name', ws' = [o, name'] ∧ o.1 = .delimiter .dot := by
    rintro w ws' rfl hw
    obtain ⟨b, bs, o, name', hb, heq, ho, hbs⟩ := hd.member_of_kind rfl hw
    obtain rfl := Option.some.inj hb
    obtain ⟨v, vs, rfl⟩ := List.exists_cons_of_ne_nil hbs.ne_nil
    obtain ⟨rfl, rfl⟩ := List.cons.inj heq
    obtain ⟨hnumber, rfl⟩ := hbs.number_of_kind rfl hw
    exact ⟨hnumber, o, name', rfl, ho⟩
  by_cases hfinite : ∃ negative r, x = .finite negative r
  · obtain ⟨negative, r, rfl⟩ := hfinite
    obtain rfl := hx negative r rfl
    obtain ⟨c, cs, hdigits, hc, hcs⟩ := (Binary64.shortest .upward r).positional_eq_cons
    have hcontinues : ∀ y ∈ cs, continuesNumber y = true := by
      intro y hy
      rcases hcs y hy with hdigit | rfl
      · simp [Token.continuesNumber, hdigit]
      · decide
    have hchars : (Binary64.finite false r).text.toList = c :: cs := by
      simp [Binary64.text, signed, hdigits]
    rw [hchars, List.cons_append] at hs
    obtain ⟨w, ws', rfl, hw, hrest⟩ := hs.head_number hc
    obtain ⟨-, o, name', rfl, ho⟩ := hwhole rfl (by simp [hw])
    rw [List.dropWhile_append_of_pos hcontinues,
      List.dropWhile_cons_of_pos (by decide)] at hrest
    obtain rfl := (hrest.cut o (by simp)).delimiter ho
    -- The point went to the number, and no other one is in a name.
    have hpoint : '.' ∈ name.toList :=
      (List.dropWhile_sublist _).subset (hrest.mem (w := delimiterWord .dot) (by simp) (by decide))
    cases hname with
    | identifier hc' hcs' =>
        have hall : ∀ x ∈ _ :: _, continuesWord x = true :=
          List.forall_mem_cons.mpr ⟨Token.continuesWord_of_startsWord hc', hcs'⟩
        have hcontinues := hall '.' (by simpa using hpoint)
        revert hcontinues
        decide
  · have hinfinite : ∀ negative r, x ≠ .finite negative r :=
      fun negative r h => hfinite ⟨negative, r, h⟩
    obtain ⟨w, ws', rfl, hnumber, hparen⟩ := hs.head_not_finite hinfinite
    exact hnumber (hwhole rfl hparen).1

theorem exists_sign_of_kind (ha : Derives (NamesType Braced) tier a as)
    (hcut : ∀ w ∈ as, w.Cut) (hk : a.kind = .unary) :
    ∃ (o : Token.Operator) (b : Node), a = texted .unary o.spelling .start [b] := by
  induction ha with
  | @signed b _ o sign hop =>
      obtain rfl := (hcut o (by simp)).operator hop
      exact ⟨sign, b, rfl⟩
  | @updated b _ o sign hop =>
      obtain rfl := (hcut o (by simp)).operator hop
      exact ⟨sign, b, rfl⟩
  | parens _ _ _ ih => exact ih (fun w hw => hcut w (by simp [hw])) hk
  | ofPrimary _ ih => exact ih hcut hk
  | ofOperand _ ih => exact ih hcut hk
  | ofUnary _ ih => exact ih hcut hk
  | ofTighter _ ih => exact ih hcut hk
  | ofBinary _ ih => exact ih hcut hk
  | ofConditional _ ih => exact ih hcut hk
  | _ => contradiction

/-- An operator before an operand is read as it is only where it stands clear. -/
theorem standsClear_unary {o : Token.Operator} (ho : (o.isSign || o.isUpdate) = true)
    (ha : Derives (NamesType Braced) tier a as) (hcut : ∀ w ∈ as, w.Cut)
    (hs : Spells (o.spelling.toList ++ a.operandText) ws)
    (hd : Derives (NamesType Braced) .expression (texted .unary o.spelling .start [a]) ws) :
    standsClear (texted .unary o.spelling .start [a]) = true := by
  obtain ⟨longest, ws', hlongest, rfl, hrest⟩ := hs.head_operator ho
  obtain ⟨a', heq, hcases⟩ := hd.unary_of_kind rfl (o := longest) rfl
  obtain ⟨hspelling, rfl⟩ : o.spelling = longest.spelling ∧ a = a' := by
    simpa [texted, operatorWord] using heq
  obtain rfl : o = longest := by
    have hself := (Token.Lexeme.length_spelling o o.mem_all).2
    rw [hspelling, (Token.Lexeme.length_spelling longest longest.mem_all).2] at hself
    exact (Option.some.inj hself).symm
  rw [List.drop_left] at hrest
  by_cases hupdate : o.isUpdate = true
  · have hoperand : Derives (NamesType Braced) .operand a ws' := by
      rcases hcases with ⟨hsign, -⟩ | ⟨-, hoperand⟩
      · cases o <;> contradiction
      · exact hoperand
    have hoperator : Spells (a.operandText ++ []) ws' := by simpa using hrest
    have hprefixed := not_isPrefixed_of_spells ha hcut hoperator hoperand
    simp [standsClear, texted, text?, isUpdateText_spelling, hupdate, hprefixed]
  · by_contra hclear
    obtain ⟨hunary, htogether⟩ :
        a.kind = .unary ∧ runTogether o.spelling (a.text?.getD "") = true := by
      simpa [standsClear, texted, text?, isUpdateText_spelling, hupdate] using hclear
    obtain ⟨sign, b, rfl⟩ := exists_sign_of_kind ha hcut hunary
    obtain ⟨c, cs, hchars⟩ := List.exists_cons_of_ne_nil sign.spelling_ne_nil
    have htext : operandText (texted .unary sign.spelling .start [b]) =
        c :: (cs ++ b.operandText) := by
      rw [operandText_of_not_compound rfl, toList_render_unary, hchars, List.cons_append]
    have htake : (o.spelling.toList ++ c :: (cs ++ b.operandText)).take
        (o.spelling.toList.length + 1) = o.spelling.toList ++ [c] := by
      rw [List.take_append, List.take_of_length_le (Nat.le_succ _)]
      simp
    have hother : (Token.Operator.ofSpelling? (o.spelling.toList ++ [c])).isSome = true := by
      simpa [runTogether, texted, text?, hchars] using htogether
    obtain ⟨longer, hlonger⟩ := Option.isSome_iff_exists.mp hother
    have hlength := (Token.Lexeme.length_spelling longer longer.mem_all).1
    rw [Token.Operator.spelling_of_ofSpelling? hlonger, List.length_append,
      List.length_singleton] at hlength
    rw [htext] at hlongest
    have hle := Token.Lexeme.le_length_operator? hlongest hlength (by simp) (by rw [htake, hother])
    omega

/-- A tree whose text is read as the tree stands clear of its operands and is no infinite number. -/
theorem standsClear_of_spells (h : Derives (NamesType Braced) tier n vs) (hcut : ∀ w ∈ vs, w.Cut)
    (hs : Spells n.render.toList ws) (hd : Derives (NamesType Braced) .expression n ws) :
    n.standsClear = true ∧ n.isFinite = true := by
  induction h with
  | @number w x hw hx =>
      refine ⟨rfl, ?_⟩
      by_contra hfinite
      have hinfinite : ∀ negative r, x ≠ .finite negative r := by
        rintro negative r rfl
        exact hfinite rfl
      have htext : Spells (x.text.toList ++ []) ws := by
        rw [List.append_nil]
        exact hs
      obtain ⟨v, ws', rfl, hnumber, hparen⟩ := htext.head_not_finite hinfinite
      exact hnumber (hd.number_of_kind rfl hparen).1
  | parens _ _ _ ih => exact ih (fun w hw => hcut w (by simp [hw])) hs hd
  | ofPrimary _ ih => exact ih hcut hs hd
  | ofOperand _ ih => exact ih hcut hs hd
  | ofUnary _ ih => exact ih hcut hs hd
  | ofTighter _ ih => exact ih hcut hs hd
  | ofBinary _ ih => exact ih hcut hs hd
  | ofConditional _ ih => exact ih hcut hs hd
  | index _ _ ha =>
      rw [toList_render_index] at hs
      have hprefixed := not_isPrefixed_of_spells ha (fun w hw => hcut w (by simp [hw])) hs
        (hd.operand_of_kind rfl rfl)
      exact ⟨by simpa [standsClear, texted] using hprefixed, rfl⟩
  | call _ _ _ hf =>
      rw [toList_render_call] at hs
      have hprefixed := not_isPrefixed_of_spells hf (fun w hw => hcut w (by simp [hw])) hs
        (hd.operand_of_kind rfl rfl)
      exact ⟨by simpa [standsClear, texted] using hprefixed, rfl⟩
  | @member a as o name hop hname ha =>
      have hcut' : ∀ w ∈ as, w.Cut := fun w hw => hcut w (by simp [hw])
      obtain rfl := (hcut o (by simp)).delimiter hop
      have hwritten := (hcut name (by simp)).identifier hname
      have htext : (texted .member (delimiterWord .dot).2 .start
          [a, texted .identifier name.2 .start []]).render.toList =
            a.operandText ++ '.' :: name.2.toList := toList_render_member a name.2
      rw [htext] at hs
      have hoperand := hd.operand_of_kind rfl rfl
      have hprefixed := not_isPrefixed_of_spells ha hcut' hs hoperand
      have hnumber := not_number_of_spells ha hcut' hwritten hs hoperand
      exact ⟨by simp [standsClear, texted, hprefixed, hnumber], rfl⟩
  | @pointerMember a as o name hop hname ha =>
      obtain rfl := (hcut o (by simp)).operator hop
      have htext : (texted .pointerMember (operatorWord .arrow).2 .start
          [a, texted .identifier name.2 .start []]).render.toList =
            a.operandText ++ '-' :: '>' :: name.2.toList := toList_render_pointerMember a name.2
      rw [htext] at hs
      have hprefixed := not_isPrefixed_of_spells ha (fun w hw => hcut w (by simp [hw])) hs
        (hd.operand_of_kind rfl rfl)
      exact ⟨by simpa [standsClear, texted] using hprefixed, rfl⟩
  | update _ _ ha =>
      rw [toList_render_update] at hs
      have hprefixed := not_isPrefixed_of_spells ha (fun w hw => hcut w (by simp [hw])) hs
        (hd.operand_of_kind rfl rfl)
      exact ⟨by simpa [standsClear, texted] using hprefixed, rfl⟩
  | @signed a as o sign hop hsign ha =>
      obtain rfl := (hcut o (by simp)).operator hop
      rw [show (operatorWord sign).2 = sign.spelling from rfl] at hd hs ⊢
      rw [toList_render_unary] at hs
      exact ⟨standsClear_unary (by simp [hsign]) ha (fun w hw => hcut w (by simp [hw])) hs hd, rfl⟩
  | @updated a as o sign hop hsign ha =>
      obtain rfl := (hcut o (by simp)).operator hop
      rw [show (operatorWord sign).2 = sign.spelling from rfl] at hd hs ⊢
      rw [toList_render_unary] at hs
      exact ⟨standsClear_unary (by simp [hsign]) ha (fun w hw => hcut w (by simp [hw])) hs hd, rfl⟩
  | _ => exact ⟨rfl, rfl⟩

end Node

/-! ## Reading a text back -/

namespace Node

variable {n t : Node} {ws : List Word}

theorem IsClear.part (h : t.IsClear) (hn : n ∈ t.preorder) : n.IsClear :=
  fun _ hm => h _ (preorder_subset t hn hm)

theorem standsClear_unplaced (n : Node) : n.unplaced.standsClear = n.standsClear := by
  obtain ⟨kind, value, children, location⟩ := n
  cases children with
  | nil => rfl
  | cons a children => cases kind <;> simp [standsClear, unplaced, unplacedAll, text?]

theorem isFinite_unplaced (n : Node) : n.unplaced.isFinite = n.isFinite := by
  rw [isFinite, unplaced_value]
  rfl

theorem isClear_unplaced : t.unplaced.IsClear ↔ t.IsClear := by
  rw [IsClear, IsClear, preorder_unplaced, List.forall_mem_map]
  simp only [standsClear_unplaced, isFinite_unplaced]

/-- The text of a tree is read, up to its end, as a tree that differs from it in the places only,
wherever the nesting may be as deep as the text needs. -/
def ReadsBack (t : Node) : Prop :=
  ∃ tokens, tokenize t.render = .ok tokens ∧ ∃ enough, ∀ limit ≥ enough,
    ∃ u v, (Grammar.Rules.forTokens tokens).expression (.ofTokens tokens limit) = .ok u v ∧
      u.unplaced = t.unplaced ∧ v.front.kind = .endOfInput

/-- What is shown is read back. -/
theorem Shown.readsBack (h : n.unplaced.Shown ws) : n.ReadsBack := by
  have hspells : Spells n.render.toList ws := by
    have hceases : ∀ point, Ceases point [] := by simp [Ceases]
    have hwhole := h.spells (hceases _) .nil
    rwa [render_unplaced, List.append_nil, List.append_nil] at hwhole
  obtain ⟨tokens, htokens, hscript⟩ := tokenize_of_spells hspells
  refine ⟨tokens, htokens, ws.length, fun limit hlimit => ?_⟩
  have hlength := Grammar.State.length_script_ofTokens_le tokens limit
  rw [hscript] at hlength
  obtain ⟨u, v, hrun, htree, hend⟩ := Grammar.expression_of_script (n := 2 * tokens.length + 1)
    h.expression (hscript limit) (by omega) (by simpa [Grammar.State.ofTokens] using hlimit)
  refine ⟨u, v, hrun, htree, ?_⟩
  rw [Grammar.State.front_kind, hend]
  rfl

/-- What is read back is derived from the words of its text. -/
theorem ReadsBack.words (h : n.ReadsBack) : ∃ ws, Spells n.render.toList ws ∧
    Derives (NamesType Braced) .expression n.unplaced ws := by
  obtain ⟨tokens, htokens, enough, hreads⟩ := h
  obtain ⟨u, v, hrun, htree, hend⟩ := hreads enough (Nat.le_refl _)
  obtain ⟨ws, hscript, hd⟩ := (Grammar.Rules.level_sound _).expression hrun
  have hspells := spells_of_tokenize htokens enough
  rw [hscript] at hspells
  have hnone : v.script = [] := by
    cases hv : v.script with
    | nil => rfl
    | cons w us =>
        rw [Grammar.State.front_kind, hv] at hend
        have hkind : w.1 = .endOfInput := hend
        have hwritten := hspells.written w (by simp [hv]) (by simp [hkind]) (by simp [hkind])
        cases hwritten <;> contradiction
  rw [hnone, List.append_nil] at hspells
  exact ⟨ws, hspells, htree ▸ hd⟩

/-- What is read back stands clear. -/
theorem ReadsBack.standsClear {tier : Tier} (h : n.ReadsBack)
    (hd : Derives (NamesType Braced) tier n.unplaced ws) (hcut : ∀ w ∈ ws, w.Cut) :
    n.standsClear = true ∧ n.isFinite = true := by
  obtain ⟨vs, hspells, hback⟩ := h.words
  rw [← n.render_unplaced] at hspells
  rw [← n.standsClear_unplaced, ← n.isFinite_unplaced]
  exact standsClear_of_spells hd hcut hspells hback

end Node

section

variable {source : String} {tokens : List Token} {limit : Nat} {t : Node} {s : Grammar.State}

/-- Each part of a tree that was read is derived from words that a lexer cut off. -/
theorem exists_derives_of_expression (htokens : tokenize source = .ok tokens)
    (hrun : (Grammar.Rules.forTokens tokens).expression (.ofTokens tokens limit) = .ok t s) :
    ∀ n ∈ t.preorder, ∃ tier ws, Derives (NamesType Braced) tier n.unplaced ws ∧
      ∀ w ∈ ws, w.Cut := by
  obtain ⟨ws, hscript, hd⟩ := (Grammar.Rules.level_sound _).expression hrun
  have hspells := spells_of_tokenize htokens limit
  intro n hn
  have hmem : n.unplaced ∈ t.unplaced.preorder := by
    rw [Node.preorder_unplaced]
    exact List.mem_map_of_mem hn
  obtain ⟨tier, vs, hvs, hsub⟩ := hd.parts _ hmem
  refine ⟨tier, vs, hvs, fun w hw => hspells.cut w ?_⟩
  rw [hscript]
  exact List.mem_append_left _ (hsub hw)

/-- The tree of an expression and all its parts are read back from their texts exactly if each
node of it stands clear of its operand and each number of it is finite. -/
theorem render_readsBack_iff (htokens : tokenize source = .ok tokens)
    (hrun : (Grammar.Rules.forTokens tokens).expression (.ofTokens tokens limit) = .ok t s) :
    (∀ n ∈ t.preorder, n.ReadsBack) ↔ t.IsClear := by
  have hparts := exists_derives_of_expression htokens hrun
  constructor
  · intro hback n hn
    obtain ⟨tier, ws, hws, hcut⟩ := hparts n hn
    exact (hback n hn).standsClear hws hcut
  · intro hclear n hn
    obtain ⟨tier, ws, hws, hcut⟩ := hparts n hn
    have hpart := Node.isClear_unplaced.mpr (hclear.part hn)
    obtain ⟨vs, hvs⟩ := Node.shown_of_derives hws hcut hpart
    exact hvs.readsBack

end

/-- A product of a sum and a member keeps its grouping. -/
theorem render_readsBack_product :
    let tokens : List Token := [⟨.delimiter .leftParen, "(", ⟨1, 1⟩⟩, ⟨.identifier, "a", ⟨1, 2⟩⟩,
      ⟨.operator .plus, "+", ⟨1, 4⟩⟩, ⟨.identifier, "b", ⟨1, 6⟩⟩,
      ⟨.delimiter .rightParen, ")", ⟨1, 7⟩⟩, ⟨.operator .star, "*", ⟨1, 9⟩⟩,
      ⟨.operator .minus, "-", ⟨1, 11⟩⟩, ⟨.identifier, "c", ⟨1, 12⟩⟩,
      ⟨.operator .arrow, "->", ⟨1, 13⟩⟩, ⟨.identifier, "d", ⟨1, 15⟩⟩, .endOfInput ⟨1, 16⟩]
    let sum : Node := .texted .binary "+" ⟨1, 4⟩
      [.texted .identifier "a" ⟨1, 2⟩ [], .texted .identifier "b" ⟨1, 6⟩ []]
    let member : Node := .texted .pointerMember "->" ⟨1, 13⟩
      [.texted .identifier "c" ⟨1, 12⟩ [], .texted .identifier "d" ⟨1, 15⟩ []]
    let t : Node := .texted .binary "*" ⟨1, 9⟩ [sum, .texted .unary "-" ⟨1, 11⟩ [member]]
    tokenize "(a + b) * -c->d" = .ok tokens ∧
      (∃ s, (Grammar.Rules.forTokens tokens).expression (.ofTokens tokens 8) = .ok t s) ∧
      t.IsClear ∧ ∀ n ∈ t.preorder, n.ReadsBack := by
  intro tokens sum member t
  have htokens : tokenize "(a + b) * -c->d" = .ok tokens := rfl
  have hrun : ∃ s, (Grammar.Rules.forTokens tokens).expression (.ofTokens tokens 8) = .ok t s :=
    exists_eq_ok (by decide +kernel)
  have hclear : t.IsClear := by decide
  obtain ⟨s, hs⟩ := hrun
  exact ⟨htokens, ⟨s, hs⟩, hclear, (render_readsBack_iff htokens hs).mpr hclear⟩

/-- A member of what a pointer points to is not read back: its text points to by a member. -/
theorem not_readsBack_member :
    let tokens : List Token := [⟨.delimiter .leftParen, "(", ⟨1, 1⟩⟩,
      ⟨.operator .star, "*", ⟨1, 2⟩⟩, ⟨.identifier, "p", ⟨1, 3⟩⟩,
      ⟨.delimiter .rightParen, ")", ⟨1, 4⟩⟩, ⟨.delimiter .dot, ".", ⟨1, 5⟩⟩,
      ⟨.identifier, "f", ⟨1, 6⟩⟩, .endOfInput ⟨1, 7⟩]
    let target : Node := .texted .unary "*" ⟨1, 2⟩ [.texted .identifier "p" ⟨1, 3⟩ []]
    let t : Node := .texted .member "." ⟨1, 5⟩ [target, .texted .identifier "f" ⟨1, 6⟩ []]
    tokenize "(*p).f" = .ok tokens ∧
      (∃ s, (Grammar.Rules.forTokens tokens).expression (.ofTokens tokens 8) = .ok t s) ∧
      t.render = "*p.f" ∧ ¬t.ReadsBack := by
  intro tokens target t
  have htokens : tokenize "(*p).f" = .ok tokens := rfl
  have hrun : ∃ s, (Grammar.Rules.forTokens tokens).expression (.ofTokens tokens 8) = .ok t s :=
    exists_eq_ok (by decide +kernel)
  refine ⟨htokens, hrun, rfl, fun hback => ?_⟩
  obtain ⟨s, hs⟩ := hrun
  obtain ⟨tier, ws, hws, hcut⟩ := exists_derives_of_expression htokens hs t (by decide)
  have hclear := (hback.standsClear hws hcut).1
  revert hclear
  decide

end CSurvey
