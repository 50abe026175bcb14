import CSurvey.Json.Lexeme
import CSurvey.Json.Value
import CSurvey.Proofs.Number.ReadBack
import CSurvey.Proofs.Token.Written

/-! # Reading what is written

The compact text of a value without fractions is read as the pieces that the value is made of. Each
piece is read off the front of whatever follows it; only a number has to be followed by a comma or
by what closes a list. -/

namespace CSurvey.Json

/-! ## Strings -/

/-- The code of a control character has two digits, behind two zeros. -/
theorem codeUnit?_of_control : ∀ n ∈ List.range 32,
    List.replicate (4 - (Nat.toDigits 16 n).length) '0' ++ Nat.toDigits 16 n =
        ['0', '0', (n / 16).digitChar, (n % 16).digitChar] ∧
      codeUnit? ['0', '0', (n / 16).digitChar, (n % 16).digitChar] = some n := by
  decide

/-- A code unit below those of surrogate pairs stands for a character of its own. -/
theorem decodeUnits_code {unit : Nat} (h : unit < 0xd800) (units : List Unit16) :
    decodeUnits (.code unit :: units) = (decodeUnits units).map (Char.ofNat unit :: ·) := by
  have hhigh : ¬(0xd800 ≤ unit ∧ unit < 0xdc00) := by omega
  have hlow : ¬(0xdc00 ≤ unit ∧ unit < 0xe000) := by omega
  have hpair : ¬(0xd800 ≤ unit ∧ unit < 0xe000) := by omega
  match units with
  | [] => simp [decodeUnits, hpair]
  | .char c :: units => simp [decodeUnits, hpair]
  | .code low :: units => simp [decodeUnits, hhigh, hlow]

/-- What is written for a character is read as one unit, which stands for it. -/
theorem stringUnits_escapeChar (c : Char) : ∃ unit,
    (∀ units, decodeUnits (unit :: units) = (decodeUnits units).map (c :: ·)) ∧
      ∀ {cs units rest}, stringUnits cs = some (units, rest) →
        stringUnits (escapeChar c ++ cs) = some (unit :: units, rest) := by
  have hshort : ∀ {d : Char}, d ≠ 'u' → shortEscape? d = some c → ∀ {cs units rest},
      stringUnits cs = some (units, rest) →
        stringUnits ('\\' :: d :: cs) = some (.char c :: units, rest) := by
    intro d hd hc cs units rest h
    rw [stringUnits] <;> simp [hc, h, hd]
  have hchar : ∀ units, decodeUnits (.char c :: units) = (decodeUnits units).map (c :: ·) :=
    fun _ => rfl
  unfold escapeChar
  split
  all_goals first
    | exact ⟨.char _, hchar, hshort (by decide) (by decide)⟩
    | skip
  split
  · rename_i hcontrol
    obtain ⟨hdigits, hunit⟩ := codeUnit?_of_control c.toNat (List.mem_range.mpr hcontrol)
    refine ⟨.code c.toNat, fun units => ?_, fun {cs units rest} h => ?_⟩
    · rw [decodeUnits_code (by omega), Char.ofNat_toNat]
    · rw [codeEscape, hdigits]
      simp [stringUnits, hunit, h]
  · refine ⟨.char c, hchar, fun {cs units rest} h => ?_⟩
    rw [List.singleton_append, stringUnits] <;> simp_all

/-- A text is read back from between its quotes. -/
theorem stringUnits_escaped (cs rest : List Char) : ∃ units,
    stringUnits (cs.flatMap escapeChar ++ '"' :: rest) = some (units, rest) ∧
      decodeUnits units = some cs := by
  induction cs with
  | nil => exact ⟨[], rfl, rfl⟩
  | cons c cs ih =>
      obtain ⟨units, hunits, hdecoded⟩ := ih
      obtain ⟨unit, hunit, hread⟩ := stringUnits_escapeChar c
      refine ⟨unit :: units, ?_, by rw [hunit, hdecoded, Option.map_some]⟩
      rw [List.flatMap_cons, List.append_assoc]
      exact hread hunits

theorem lexeme?_quoted (text : String) (rest : List Char) :
    lexeme? (quoted text ++ rest) = some (.string (some text.toList), rest) := by
  obtain ⟨units, hunits, hdecoded⟩ := stringUnits_escaped text.toList rest
  have hquoted : quoted text ++ rest =
      '"' :: (text.toList.flatMap escapeChar ++ '"' :: rest) := by
    simp [quoted]
  rw [hquoted, lexeme?, hunits, Option.map_some]
  dsimp only
  rw [hdecoded]

/-! ## Numbers -/

/-- What may stand behind a value: a comma, or what closes a list or an object. -/
def Closes (rest : List Char) : Prop :=
  ∀ c ∈ rest.head?, c = ',' ∨ c = ']' ∨ c = '\x7d'

/-- No number but zero is written with a zero in front. -/
theorem eq_zero_of_naturalText {n : Nat} {cs : List Char} (h : naturalText n = '0' :: cs) :
    n = 0 := by
  induction n using Nat.strongRecOn generalizing cs with
  | ind n ih =>
      rw [naturalText, Nat.toDigits_eq_if (by decide)] at h
      split at h
      · have hdigit : ∀ d ∈ List.range 10, d.digitChar = '0' → d = 0 := by decide
        exact hdigit n (List.mem_range.mpr ‹_›) (List.cons.inj h).1
      · obtain ⟨d, ds, hcons⟩ := List.exists_cons_of_ne_nil (Nat.toDigits_ne_nil (n := n / 10) (b := 10))
        rw [hcons] at h
        have hzero := ih (n / 10) (by omega) (hcons.trans (by rw [(List.cons.inj h).1]))
        omega

theorem Closes.not_isDigit {rest : List Char} (h : Closes rest) :
    ∀ c ∈ rest.head?, c.isDigit = false := by
  intro c hc
  obtain rfl | rfl | rfl := h c hc <;> decide

theorem wholeDigits?_naturalText {rest : List Char} (hrest : ∀ c ∈ rest.head?, c.isDigit = false)
    (n : Nat) : wholeDigits? (naturalText n ++ rest) = some (naturalText n, rest) := by
  have hne : naturalText n ≠ [] := Nat.toDigits_ne_nil
  by_cases hn : n = 0
  · subst hn
    have hhead : (rest.head?.map Char.isDigit).getD false = false := by
      cases h : rest.head? with
      | none => rfl
      | some c => exact hrest c h
    show (if (rest.head?.map Char.isDigit).getD false then none else some (['0'], rest)) = _
    rw [hhead]
    rfl
  · obtain ⟨htake, hdrop⟩ := Token.Lexeme.takeWhile_append
      (fun _ => isDigit_of_mem_naturalText (n := n)) hrest
    unfold wholeDigits?
    split
    · rename_i cs hcs
      obtain ⟨c, digits, hcons⟩ := List.exists_cons_of_ne_nil hne
      rw [hcons, List.cons_append] at hcs
      rw [(List.cons.inj hcs).1] at hcons
      exact absurd (eq_zero_of_naturalText hcons) hn
    · rw [digits?, htake, hdrop]
      simp [hne]

/-- A natural number is read as itself in front of what may stand behind a value. -/
theorem number?_naturalText {rest : List Char} (hrest : Closes rest) (n : Nat) :
    number? false (naturalText n ++ rest) = some (.natural n, rest) := by
  have hfraction : fraction? rest = some (false, rest) := by
    cases rest with
    | nil => rfl
    | cons c cs => obtain rfl | rfl | rfl := hrest c rfl <;> rfl
  have hpower : power? rest = some (false, rest) := by
    cases rest with
    | nil => rfl
    | cons c cs => obtain rfl | rfl | rfl := hrest c rfl <;> rfl
  simp [number?, wholeDigits?_naturalText hrest.not_isDigit, hfraction, hpower,
    Numeral.digitsValue_naturalText]

theorem lexeme?_naturalText {rest : List Char} (hrest : Closes rest) (n : Nat) :
    lexeme? (naturalText n ++ rest) = some (.natural n, rest) := by
  obtain ⟨c, cs, hcons⟩ := List.exists_cons_of_ne_nil (Nat.toDigits_ne_nil (n := n) (b := 10))
  have hdigit : c.isDigit = true :=
    isDigit_of_mem_naturalText (n := n) (by rw [naturalText, hcons]; exact List.mem_cons_self)
  -- No other piece begins with a digit.
  rw [← number?_naturalText hrest, naturalText, hcons, List.cons_append]
  generalize cs ++ rest = behind
  rw [lexeme?]
  all_goals
    intros
    rename_i hother
    cases hother <;> exact absurd hdigit (by decide)

/-! ## Pieces one after the other -/

/-- A text is read as the given pieces, however many rounds are left for it. -/
def Reads (cs : List Char) (pieces : List Lexeme) : Prop :=
  ∀ rounds : List Char, cs.length ≤ rounds.length → lexemesFrom rounds cs = some pieces

theorem Reads.nil : Reads [] [] := by
  intro rounds _
  cases rounds <;> rfl

/-- No piece begins with a blank. -/
theorem isGap_of_lexeme? {c : Char} {cs rest : List Char} {piece : Lexeme}
    (h : lexeme? (c :: cs) = some (piece, rest)) : isGap c = false := by
  refine Bool.eq_false_iff.mpr fun hgap => ?_
  have hblank : c = ' ' ∨ c = '\n' ∨ c = '\t' ∨ c = '\r' := by
    simpa [isGap, or_assoc] using hgap
  have hnone : lexeme? (c :: cs) = none := by
    obtain rfl | rfl | rfl | rfl := hblank <;> rfl
  rw [hnone] at h
  contradiction

/-- A piece is read in front of others. -/
theorem Reads.piece {text rest : List Char} {piece : Lexeme} {pieces : List Lexeme}
    (hne : text ≠ []) (hpiece : lexeme? (text ++ rest) = some (piece, rest))
    (hrest : Reads rest pieces) : Reads (text ++ rest) (piece :: pieces) := by
  obtain ⟨c, cs, rfl⟩ := List.exists_cons_of_ne_nil hne
  intro rounds hle
  cases rounds with
  | nil => exact absurd hle (Nat.not_succ_le_zero _)
  | cons _ rounds =>
      have hle : rest.length ≤ rounds.length := by
        simp only [List.length_cons, List.length_append] at hle
        omega
      rw [List.cons_append] at hpiece ⊢
      simp [lexemesFrom, isGap_of_lexeme? hpiece, hpiece, hrest rounds hle]

/-- A text is written by the given pieces: they are read off it in front of all that may stand
behind a value. -/
def Writes (text : String) (pieces : List Lexeme) : Prop :=
  ∀ {rest more}, Closes rest → Reads rest more → Reads (text.toList ++ rest) (pieces ++ more)

/-! ## Lists of parts -/

/-- Parts with commas between them. -/
def separated : List (List Lexeme) → List Lexeme
  | [] => []
  | part :: parts => part ++ parts.flatMap (.comma :: ·)

theorem toList_intercalate (text : String) (texts : List String) :
    (",".intercalate (text :: texts)).toList =
      text.toList ++ texts.flatMap fun text => ',' :: text.toList := by
  induction texts generalizing text with
  | nil => simp
  | cons next texts ih =>
      rw [String.intercalate_cons_cons, String.toList_append, String.toList_append, ih]
      simp

theorem Closes.cons {c : Char} (h : c = ',' ∨ c = ']' ∨ c = '\x7d') (rest : List Char) :
    Closes (c :: rest) :=
  fun _ hc => Option.some.inj hc ▸ h

/-- Parts that are written one by one are written behind a comma each. -/
theorem reads_flatMap {texts : List String} {parts : List (List Lexeme)} {rest : List Char}
    {more : List Lexeme} (h : List.Forall₂ Writes texts parts) (hrest : Closes rest)
    (hmore : Reads rest more) :
    Closes (texts.flatMap (fun text => ',' :: text.toList) ++ rest) ∧
      Reads (texts.flatMap (fun text => ',' :: text.toList) ++ rest)
        (parts.flatMap (.comma :: ·) ++ more) := by
  induction h with
  | nil => exact ⟨hrest, hmore⟩
  | @cons text part texts parts hpart _ ih =>
      refine ⟨.cons (.inl rfl) _, ?_⟩
      have hread := hpart ih.1 ih.2
      rw [List.flatMap_cons, List.flatMap_cons, List.append_assoc, List.append_assoc]
      have hcomma := Reads.piece (List.cons_ne_nil ',' []) rfl hread
      exact hcomma

theorem writes_separated {texts : List String} {parts : List (List Lexeme)}
    (h : List.Forall₂ Writes texts parts) : Writes (",".intercalate texts) (separated parts) := by
  intro rest more hrest hmore
  cases h with
  | nil => exact hmore
  | cons hpart hparts =>
      obtain ⟨hcloses, hreads⟩ := reads_flatMap hparts hrest hmore
      rw [toList_intercalate, separated, List.append_assoc, List.append_assoc]
      exact hpart hcloses hreads

/-! ## Values -/

mutual

/-- The pieces that a value is written with. -/
def pieces : Json → List Lexeme
  | .null => [.null]
  | .bool b => [.bool b]
  | .natural n => [.natural n]
  | .real _ => [.otherNumber]
  | .string text => [.string (some text.toList)]
  | .array items => .openBracket :: (separated (itemPieces items) ++ [.closeBracket])
  | .object members => .openBrace :: (separated (memberPieces members) ++ [.closeBrace])

/-- The pieces of the items of an array. -/
def itemPieces : List Json → List (List Lexeme)
  | [] => []
  | item :: items => item.pieces :: itemPieces items

/-- The pieces of the members of an object. -/
def memberPieces : List (String × Json) → List (List Lexeme)
  | [] => []
  | (key, value) :: members =>
    (.string (some key.toList) :: .colon :: value.pieces) :: memberPieces members

end

/-- Parts in brackets are written if the parts are. -/
theorem writes_enclosed {first last : String} {opening closing : Lexeme} {texts : List String}
    {parts : List (List Lexeme)} (h : List.Forall₂ Writes texts parts)
    (hne : first.toList ≠ [] ∧ last.toList ≠ [])
    (hopening : ∀ cs, lexeme? (first.toList ++ cs) = some (opening, cs))
    (hclosing : ∀ cs, lexeme? (last.toList ++ cs) = some (closing, cs))
    (hlast : ∀ cs, Closes (last.toList ++ cs)) :
    Writes (first ++ ",".intercalate texts ++ last)
      (opening :: (separated parts ++ [closing])) := by
  intro rest more _ hmore
  have hend : Reads (last.toList ++ rest) (closing :: more) := .piece hne.2 (hclosing rest) hmore
  have hinner := writes_separated h (hlast rest) hend
  rw [String.toList_append, String.toList_append, List.append_assoc, List.append_assoc,
    List.cons_append, List.append_assoc]
  exact .piece hne.1 (hopening _) hinner

theorem writes_member {key : String} {value : Json} (h : Writes value.compact value.pieces) :
    Writes (keyText key ++ value.compact)
      (.string (some key.toList) :: .colon :: value.pieces) := by
  intro rest more hrest hmore
  have hcolon : Reads (':' :: (value.compact.toList ++ rest)) (.colon :: (value.pieces ++ more)) :=
    .piece (List.cons_ne_nil ':' []) rfl (h hrest hmore)
  have htext : (keyText key ++ value.compact).toList ++ rest =
      quoted key ++ ':' :: (value.compact.toList ++ rest) := by
    simp [keyText]
  rw [htext]
  exact .piece (List.cons_ne_nil _ _) (lexeme?_quoted key _) hcolon

theorem forall₂_items {items : List Json} (h : ∀ item ∈ items, Writes item.compact item.pieces) :
    List.Forall₂ Writes (compactItems items) (itemPieces items) := by
  induction items with
  | nil => exact .nil
  | cons item items ih =>
      rw [List.forall_mem_cons] at h
      exact .cons h.1 (ih h.2)

theorem forall₂_members {members : List (String × Json)}
    (h : ∀ member ∈ members, Writes member.2.compact member.2.pieces) :
    List.Forall₂ Writes (compactMembers members) (memberPieces members) := by
  induction members with
  | nil => exact .nil
  | cons member members ih =>
      rw [List.forall_mem_cons] at h
      exact .cons (writes_member h.1) (ih h.2)

/-- A value without fractions in it, whose numbers are all natural. -/
inductive IsPlain : Json → Prop
  | null : IsPlain .null
  | bool (b : Bool) : IsPlain (.bool b)
  | natural (n : Nat) : IsPlain (.natural n)
  | string (text : String) : IsPlain (.string text)
  | array {items : List Json} : (∀ item ∈ items, item.IsPlain) → IsPlain (.array items)
  | object {members : List (String × Json)} :
      (∀ member ∈ members, member.2.IsPlain) → IsPlain (.object members)

/-- A plain value is read as its pieces. -/
theorem IsPlain.writes {v : Json} (h : v.IsPlain) : Writes v.compact v.pieces := by
  induction h with
  | null =>
      intro rest more _ hmore
      have hne : "null".toList ≠ [] := by decide
      exact .piece hne rfl hmore
  | bool b =>
      intro rest more _ hmore
      have hne : "true".toList ≠ [] ∧ "false".toList ≠ [] := by decide
      cases b with
      | true => exact .piece hne.1 rfl hmore
      | false => exact .piece hne.2 rfl hmore
  | natural n =>
      intro rest more hrest hmore
      simp only [compact, scalarText, String.toList_ofList]
      exact .piece Nat.toDigits_ne_nil (lexeme?_naturalText hrest n) hmore
  | string text =>
      intro rest more _ hmore
      simp only [compact, scalarText, String.toList_ofList]
      exact .piece (List.cons_ne_nil _ _) (lexeme?_quoted text rest) hmore
  | array _ ih =>
      rw [compact, pieces]
      refine writes_enclosed (forall₂_items ih) (by decide) (fun _ => rfl) (fun _ => rfl) ?_
      exact Closes.cons (.inr (.inl rfl))
  | object _ ih =>
      rw [compact, pieces]
      refine writes_enclosed (forall₂_members ih) (by decide) (fun _ => rfl) (fun _ => rfl) ?_
      exact Closes.cons (.inr (.inr rfl))

/-- The compact text of a plain value is made of its pieces. -/
theorem IsPlain.lexemes?_compact {v : Json} (h : v.IsPlain) :
    lexemes? v.compact = some v.pieces := by
  have hend : Closes [] := fun _ hc => nomatch hc
  have hreads := h.writes hend .nil
  rw [List.append_nil, List.append_nil] at hreads
  exact hreads _ (Nat.le_refl _)

end CSurvey.Json
