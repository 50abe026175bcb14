import CSurvey.Proofs.Declaration.Variables
import CSurvey.Proofs.Expression.Rendering
import CSurvey.Proofs.Number.Integers

/-! # Declarations that are written out

A type and variables with stars, dimensions and integers as initial values, written with a blank
behind the type, a comma and a blank between the variables, and a semicolon at the end. The text is
read as the variables again. -/

namespace CSurvey

open Token (startsWord continuesWord)
open Grammar (ExpressionWithin HasWords starCount sizesText)

/-! ## What is written -/

/-- A keyword in any letter case. -/
structure CasedKeyword where
  keyword : Token.Keyword
  letters : List Char
  writes : Token.Keyword.ofWord? letters = some keyword

def CasedKeyword.kind (k : CasedKeyword) : Token.Kind :=
  .keyword k.keyword

def CasedKeyword.word (k : CasedKeyword) : Word :=
  (k.kind, String.ofList k.letters)

/-- A word that may stand before the base of a type. -/
abbrev Modifier := { k : CasedKeyword // k.kind.isTypeModifier = true }

/-- The base of a type. -/
inductive TypeBase where
  | base (k : CasedKeyword) (h : k.kind.isBaseType = true)
  | struct (k : CasedKeyword) (h : k.kind = .keyword .structKw) (tag : Identifier)

def TypeBase.words : TypeBase → List Word
  | base k _ => [k.word]
  | struct k _ tag => [k.word, (.identifier, tag.text)]

/-- A type without stars. Where there are modifiers, the base may be left out. -/
structure Specifier where
  modifiers : List Modifier
  base : Option TypeBase
  nonempty : modifiers ≠ [] ∨ base ≠ none

namespace Specifier

def words (type : Specifier) : List Word :=
  type.modifiers.map (·.val.word) ++ type.base.elim [] TypeBase.words

/-- The text of a type: its words as they are written, with blanks between them. -/
def text (type : Specifier) : String :=
  " ".intercalate (type.words.map Prod.snd)

/-- The text that a tree gives a type: its keywords in lower case. -/
def name (type : Specifier) : String :=
  " ".intercalate (type.words.map Word.spelling)

end Specifier

/-- An integer that is a number itself. -/
abbrev ExactInteger := { n : Nat // n < 2 ^ 53 }

namespace ExactInteger

def text (n : ExactInteger) : String :=
  String.ofList (naturalText n.val)

def word (n : ExactInteger) : Word :=
  (.number, n.text)

def node (n : ExactInteger) : Node :=
  ⟨.number, some (.number (.ofNat n.val)), [], .start⟩

end ExactInteger

/-- An array size in brackets, which need not be given. -/
abbrev Dimension := Option ExactInteger

namespace Dimension

def text : Dimension → String
  | none => "[]"
  | some n => "[" ++ n.text ++ "]"

def words : Dimension → List Word
  | none => [delimiterWord .leftBracket, delimiterWord .rightBracket]
  | some n => [delimiterWord .leftBracket, n.word, delimiterWord .rightBracket]

def node : Dimension → Node
  | none => .absent .start
  | some n => n.node

end Dimension

/-- A declared variable: stars, a name, array sizes and perhaps an initial value. -/
structure Declared where
  stars : Nat
  name : Identifier
  dimensions : List Dimension
  value : Option ExactInteger

namespace Declared

def dimensionsText (x : Declared) : String :=
  String.join (x.dimensions.map Dimension.text)

/-- The text of the initial value with its sign. -/
def valueText (x : Declared) : String :=
  x.value.elim "" fun n => " = " ++ n.text

def text (x : Declared) : String :=
  starsText x.stars ++ x.name.text ++ x.dimensionsText ++ x.valueText

def valueWords (x : Declared) : List Word :=
  x.value.elim [] fun n => [operatorWord .assign, n.word]

def words (x : Declared) : List Word :=
  List.replicate x.stars (operatorWord .star) ++
    (.identifier, x.name.text) :: (x.dimensions.flatMap Dimension.words ++ x.valueWords)

/-- The syntax tree of a variable, without places, behind a type of the given text. -/
def node (x : Declared) (base : String) : Node :=
  .texted .variableDeclaration (base ++ starsText x.stars ++ x.dimensionsText) .start
    (.texted .variableDeclarator x.name.text .start (x.dimensions.map Dimension.node) ::
      (x.value.map ExactInteger.node).toList)

end Declared

/-- The text of a declaration. -/
def declarationText (type : Specifier) (xs : List Declared) : String :=
  type.text ++ " " ++ ", ".intercalate (xs.map Declared.text) ++ ";"

/-- The words of a declaration. -/
def declarationWords (type : Specifier) (xs : List Declared) : List Word :=
  type.words ++ (commaJoined (xs.map Declared.words) ++ [delimiterWord .semicolon])

/-! ## What the words derive -/

/-- The words of a type name it. -/
theorem Specifier.namesSpecifier (type : Specifier) :
    NamesSpecifier (· = []) type.name type.words := by
  obtain ⟨modifiers, base, hsome⟩ := type
  have hmodifiers : ∀ w ∈ modifiers.map (·.val.word), w.1.isTypeModifier = true :=
    List.forall_mem_map.mpr fun k _ => k.property
  rw [Specifier.name, Specifier.words, List.map_append]
  cases base with
  | none =>
      have hbase : NamesBase (· = []) [] [] := .absent
      have hne : modifiers.map (·.val.word) ++ [] ≠ [] := by
        rw [List.append_nil, ne_eq, List.map_eq_nil_iff]
        simpa using hsome
      exact .intro hmodifiers hbase hne
  | some base =>
      cases base with
      | base k hk =>
          have hbase : NamesBase (· = []) [k.word.spelling] [k.word] := .base hk
          exact .intro hmodifiers hbase (by simp [TypeBase.words])
      | struct k hk tag =>
          have hword : k.word.1 = .keyword .structKw := hk
          have htag : ((.identifier, tag.text) : Word).1 = .identifier := rfl
          have hbase : NamesBase (· = []) ["struct" ++ " " ++ tag.text]
              [k.word, (.identifier, tag.text)] := .struct hword htag rfl
          have hnames := NamesSpecifier.intro hmodifiers hbase (by simp)
          have hstruct : k.word.spelling = "struct" := by
            rw [Word.spelling, hword]
            rfl
          rw [intercalate_append_pair, ← hstruct] at hnames
          exact hnames

/-- The digits of an integer derive its node. -/
theorem ExactInteger.derives (n : ExactInteger) : ExpressionWithin 1 n.node [n.word] := by
  have hnumber : Derives (NamesType StructWords) .primary n.node [n.word] :=
    .number rfl (Numeral.read_naturalText n.val)
  exact ⟨hnumber.toExpression nofun, Nat.le_refl 1⟩

theorem Dimension.derives (dims : List Dimension) :
    Dimensions (ExpressionWithin 1) (dims.map node) (dims.flatMap words) := by
  induction dims with
  | nil => exact .none
  | cons dim dims ih =>
      cases dim with
      | none => exact .absent rfl rfl ih
      | some n => exact .size rfl rfl n.derives ih

theorem Dimension.render_node (dim : Dimension) : "[" ++ dim.node.render ++ "]" = dim.text := by
  cases dim with
  | none => rfl
  | some n =>
      have htext : n.node.render = n.text := Binary64.text_ofNat n.property
      rw [Dimension.text, ← htext]
      rfl

theorem pointerWords_stars (n : Nat) : PointerWords (List.replicate n (operatorWord .star)) := by
  induction n with
  | zero => exact .none
  | succ n ih =>
      have hqualifiers : ∀ q ∈ ([] : List Word), q.1.isQualifier = true := by simp
      exact .star rfl hqualifiers ih

theorem starCount_stars (n : Nat) : starCount (List.replicate n (operatorWord .star)) = n := by
  rw [starCount, List.countP_replicate]
  rfl

namespace Declared

/-- The variable that is declared. -/
def toVariable (x : Declared) : Variable :=
  ⟨x.stars, x.name.text, x.dimensions.map Dimension.node, x.value.map ExactInteger.node⟩

theorem node_toVariable (x : Declared) (base : String) : x.toVariable.node base = x.node base := by
  have hsizes : sizesText (x.dimensions.map Dimension.node) = x.dimensionsText := by
    rw [sizesText, dimensionsText, List.map_map]
    exact congrArg String.join (List.map_congr_left fun dim _ => dim.render_node)
  rw [Variable.node, Variable.type, toVariable, hsizes]
  rfl

/-- The words of a variable declare it. -/
theorem variableWords (x : Declared) : VariableWords (ExpressionWithin 1) x.toVariable x.words := by
  obtain ⟨stars, name, dims, value⟩ := x
  have hstars := pointerWords_stars stars
  have hcount := starCount_stars stars
  have hsizes := Dimension.derives dims
  have hname : ((.identifier, name.text) : Word).1 = .identifier := rfl
  cases value with
  | none =>
      have hplain := VariableWords.plain hstars hname hsizes
      rwa [hcount, ← List.append_nil (dims.flatMap _)] at hplain
  | some n =>
      have hassign : (operatorWord .assign).1 = .operator .assign := rfl
      have hinitialized := VariableWords.initialized hstars hname hsizes hassign n.derives
      rwa [hcount] at hinitialized

end Declared

theorem variablesWords {xs : List Declared} (hxs : xs ≠ []) :
    VariablesWords (ExpressionWithin 1) (xs.map Declared.toVariable)
      (commaJoined (xs.map Declared.words)) := by
  induction xs with
  | nil => contradiction
  | cons x xs ih =>
      cases xs with
      | nil => exact .last x.variableWords
      | cons y ys => exact .more rfl x.variableWords (ih (by simp))

/-! ## What the text spells -/

/-- A text that may come behind a name or a number. -/
def OpensMark (cs : List Char) : Prop :=
  ∀ c ∈ cs.head?, c ∈ " ,;[]".toList

variable {rest : List Char} {us : List Word}

theorem ends_mark {k : Token.Kind} (hk : k = .identifier ∨ k = .number) (hrest : OpensMark rest) :
    k.Ends rest := by
  have hwords : ∀ c ∈ " ,;[]".toList, continuesWord c = false :=
    List.all_iff_forall_prop.mp (by decide)
  have hnumbers : ∀ c ∈ " ,;[]".toList, Token.continuesNumber c = false :=
    List.all_iff_forall_prop.mp (by decide)
  intro c hc
  rcases hk with rfl | rfl
  · exact hwords c (hrest c hc)
  · exact hnumbers c (hrest c hc)

theorem ExactInteger.spells (n : ExactInteger) (hrest : OpensMark rest) (h : Spells rest us) :
    Spells (n.text.toList ++ rest) (n.word :: us) := by
  have hwritten : n.word.Written := by
    have htext : n.text = (Binary64.finite false (Binary64.rankOfRatio n.val 1)).text := by
      rw [← Binary64.ofNat_eq n.property, Binary64.text_ofNat n.property]
      rfl
    rw [ExactInteger.word, htext]
    exact Binary64.written_text _
  exact hwritten.spells (ends_mark (.inr rfl) hrest) h

theorem Dimension.spells (dims : List Dimension) (h : Spells rest us) :
    Spells ((String.join (dims.map text)).toList ++ rest) (dims.flatMap words ++ us) := by
  induction dims with
  | nil => exact h
  | cons dim dims ih =>
      have hclose := Spells.delimiter (c := ']') .rightBracket rfl ih
      cases dim with
      | none =>
          have hopen := Spells.delimiter (c := '[') .leftBracket rfl hclose
          simpa [text, words] using hopen
      | some n =>
          have hnumber := n.spells (by simp [OpensMark]) hclose
          have hopen := Spells.delimiter (c := '[') .leftBracket rfl hnumber
          simpa [text, words] using hopen

/-- Stars before a name are spelled one by one: none runs on over another or over the name. -/
theorem stars_spells (n : Nat) {c : Char} (hc : startsWord c = true) (h : Spells (c :: rest) us) :
    Spells ((starsText n).toList ++ c :: rest) (List.replicate n (operatorWord .star) ++ us) := by
  induction n with
  | zero => simpa [starsText] using h
  | succ n ih =>
      have hend : (Token.Kind.operator .star).Ends ((starsText n).toList ++ c :: rest) := by
        cases n with
        | zero =>
            have hplain : OpensPlain [c] := ⟨c, [], rfl, Node.not_sign_of_startsWord hc⟩
            simpa [starsText] using ends_opensPlain (o := .star) (by decide) hplain rest
        | succ n =>
            intro x hx
            obtain rfl : '*' = x := by simpa [starsText, List.replicate_succ] using hx
            decide
      have hstar := (operatorWord_written .star).spells hend ih
      have hspelling : (operatorWord .star).2.toList = ['*'] := rfl
      rw [hspelling] at hstar
      simpa [starsText, List.replicate_succ] using hstar

namespace Declared

variable (x : Declared)

theorem spells_value (hrest : OpensMark rest) (h : Spells rest us) :
    Spells (x.valueText.toList ++ rest) (x.valueWords ++ us) := by
  obtain ⟨stars, name, dims, value⟩ := x
  cases value with
  | none => exact h
  | some n =>
      have hassign := Spells.operator (o := .assign) (n.spells hrest h)
      have hblank := Spells.blank (by decide : Text.isBlank ' ' = true) hassign
      simpa [valueText, valueWords, Token.Operator.spelling] using hblank

/-- What stands behind the name of a variable opens with a mark, as what stands behind the
variable does. -/
theorem opensMark_behind_name (hrest : OpensMark rest) :
    OpensMark (x.dimensionsText.toList ++ (x.valueText.toList ++ rest)) := by
  obtain ⟨stars, name, dims, value⟩ := x
  cases dims with
  | cons dim dims => cases dim <;> simp [OpensMark, dimensionsText, Dimension.text]
  | nil =>
      cases value with
      | none => exact hrest
      | some n => simp [OpensMark, dimensionsText, valueText]

/-- The text of a variable spells its words, before a mark. -/
theorem spells (hrest : OpensMark rest) (h : Spells rest us) :
    Spells (x.text.toList ++ rest) (x.words ++ us) := by
  -- The parts are put in front of each other, since each needs to know what it stops at.
  have hmore := Dimension.spells x.dimensions (x.spells_value hrest h)
  have hname := x.name.written.spells (ends_mark (.inl rfl) (x.opensMark_behind_name hrest)) hmore
  have hletters : x.name.text.toList = x.name.first :: x.name.more := String.toList_ofList
  rw [hletters] at hname
  have hstars := stars_spells x.stars x.name.starts hname
  simpa [text, words, dimensionsText, hletters] using hstars

end Declared

/-- The texts of several variables spell their words, before a semicolon. -/
theorem variables_spell {xs : List Declared} (hxs : xs ≠ []) (h : Spells (';' :: rest) us) :
    Spells ((", ".intercalate (xs.map Declared.text)).toList ++ ';' :: rest)
      (commaJoined (xs.map Declared.words) ++ us) := by
  induction xs with
  | nil => contradiction
  | cons x xs ih =>
      cases xs with
      | nil => simpa [commaJoined] using x.spells (by simp [OpensMark]) h
      | cons y ys =>
          have hblank := Spells.blank (by decide : Text.isBlank ' ' = true) (ih (by simp))
          have hcomma := Spells.delimiter (c := ',') .comma rfl hblank
          have hall := x.spells (by simp [OpensMark]) hcomma
          simpa [commaJoined, String.intercalate_cons_cons] using hall

theorem CasedKeyword.readsBack (k : CasedKeyword) : k.word.ReadsBack :=
  Word.readsBack_keyword k.writes

theorem Specifier.readsBack (type : Specifier) : ∀ w ∈ type.words, w.ReadsBack := by
  obtain ⟨modifiers, base, -⟩ := type
  refine List.forall_mem_append.mpr ⟨List.forall_mem_map.mpr fun k _ => ?_, ?_⟩
  · exact k.val.readsBack
  · cases base with
    | none => simp
    | some base =>
        cases base with
        | base k hk => simpa [TypeBase.words] using k.readsBack
        | struct k hk tag =>
            simpa [TypeBase.words] using ⟨k.readsBack, tag.written.readsBack⟩

/-- The text of a type spells its words, before a blank. -/
theorem Specifier.spells (type : Specifier) (h : Spells rest us) :
    Spells (type.text.toList ++ ' ' :: rest) (type.words ++ us) := by
  have hblank := Spells.blank (by decide : Text.isBlank ' ' = true) h
  have hends : ∀ w ∈ type.words, w.1.Ends (' ' :: rest) := fun w _ =>
    w.1.ends_separator (.inl rfl) rest
  exact spells_blanks_of_readsBack type.readsBack hends hblank

/-- The text of a declaration spells its words. -/
theorem declaration_spells (type : Specifier) {xs : List Declared} (hxs : xs ≠ []) :
    Spells (declarationText type xs).toList (declarationWords type xs) := by
  have hend := Spells.delimiter (c := ';') .semicolon rfl .nil
  have hall := type.spells (variables_spell hxs hend)
  simpa [declarationText, declarationWords] using hall

/-! ### No comments -/

theorem not_mem_intercalate {c : Char} {sep : String} {texts : List String}
    (hsep : c ∉ sep.toList) (h : ∀ t ∈ texts, c ∉ t.toList) :
    c ∉ (sep.intercalate texts).toList := by
  induction texts with
  | nil => simp
  | cons t texts ih =>
      obtain ⟨ht, h⟩ := List.forall_mem_cons.mp h
      cases texts with
      | nil => simpa using ht
      | cons u texts => simpa [String.intercalate_cons_cons, ht, hsep] using ih h

theorem Identifier.slash_not_mem (x : Identifier) : '/' ∉ x.text.toList := by
  have hstarts : startsWord '/' = false := by decide
  have hcontinues : continuesWord '/' = false := by decide
  rw [Identifier.text, String.toList_ofList, List.mem_cons, not_or]
  refine ⟨?_, fun hmem => ?_⟩
  · rintro hfirst
    simpa [← hfirst, hstarts] using x.starts
  · simpa [hcontinues] using x.continues _ hmem

theorem CasedKeyword.slash_not_mem (k : CasedKeyword) : '/' ∉ k.word.2.toList := by
  have hstarts : startsWord '/' = false := by decide
  intro hmem
  have hletter := (Token.Keyword.letters_of_ofWord? k.writes).2 '/' (by
    simpa [CasedKeyword.word] using hmem)
  simp [hstarts] at hletter

theorem ExactInteger.slash_not_mem (n : ExactInteger) : '/' ∉ n.text.toList := by
  intro hmem
  have hdigit : Char.isDigit '/' = true := isDigit_of_mem_naturalText (n := n.val) (by
    simpa [ExactInteger.text] using hmem)
  contradiction

theorem Specifier.slash_not_mem (type : Specifier) : '/' ∉ type.text.toList := by
  obtain ⟨modifiers, base, -⟩ := type
  refine not_mem_intercalate (by decide) (List.forall_mem_map.mpr ?_)
  refine List.forall_mem_append.mpr ⟨List.forall_mem_map.mpr fun k _ => k.val.slash_not_mem, ?_⟩
  cases base with
  | none => simp
  | some base =>
      cases base with
      | base k hk => simpa [TypeBase.words] using k.slash_not_mem
      | struct k hk tag => simpa [TypeBase.words] using ⟨k.slash_not_mem, tag.slash_not_mem⟩

theorem Declared.slash_not_mem (x : Declared) : '/' ∉ x.text.toList := by
  obtain ⟨stars, name, dims, value⟩ := x
  have hdims : ∀ dim ∈ dims, '/' ∉ (Dimension.text dim).toList := by
    intro dim _
    cases dim with
    | none => decide
    | some n => simpa [Dimension.text] using n.slash_not_mem
  have hvalue : '/' ∉ (Declared.valueText ⟨stars, name, dims, value⟩).toList := by
    cases value with
    | none => simp [Declared.valueText]
    | some n => simpa [Declared.valueText] using n.slash_not_mem
  simpa [Declared.text, Declared.dimensionsText, starsText, name.slash_not_mem, hvalue] using hdims

/-! ## What is read -/

/-- The text of a declaration is read as the words of it, without comments. -/
theorem declaration_hasWords (type : Specifier) {xs : List Declared} (hxs : xs ≠ []) :
    ∃ tokens, tokenize (declarationText type xs) = .ok tokens ∧
      HasWords tokens (declarationWords type xs) := by
  obtain ⟨tokens, htokens, hscript⟩ := tokenize_of_spells (declaration_spells type hxs)
  have hvariables : '/' ∉ (", ".intercalate (xs.map Declared.text)).toList :=
    not_mem_intercalate (by decide) (List.forall_mem_map.mpr fun x _ => x.slash_not_mem)
  have hslash : '/' ∉ (declarationText type xs).toList := by
    simpa [declarationText, type.slash_not_mem] using hvariables
  exact ⟨tokens, htokens, hscript 0, (tokenize_eq_ok_iff.mp htokens).uncommented hslash⟩

/-- The text of a declaration is read as the declared variables, each with its whole type, wherever
there is room for one level. -/
theorem declarationText_parses (type : Specifier) {xs : List Declared} (hxs : xs ≠ []) :
    ∃ tokens, tokenize (declarationText type xs) = .ok tokens ∧
      ∀ options : ParseSettings, 1 ≤ options.maxNesting →
        ∃ nodes warnings, parse tokens options = ⟨.plain .program .start nodes, [], warnings⟩ ∧
          nodes.map Node.unplaced = xs.map (·.node type.name) := by
  obtain ⟨tokens, htokens, hwords⟩ := declaration_hasWords type hxs
  refine ⟨tokens, htokens, fun options hroom => ?_⟩
  -- A size and an initial value are one word each, so that one level has room for them.
  have hvariables : VariablesWords (ExpressionWithin options.maxNesting)
      (xs.map Declared.toVariable) (commaJoined (xs.map Declared.words)) :=
    (variablesWords hxs).mono fun e es _ hes => ⟨hes.1, hes.2.trans hroom⟩
  obtain ⟨nodes, warnings, hparse, htrees⟩ :=
    hwords.parse_variables type.namesSpecifier hvariables rfl
  refine ⟨nodes, warnings, hparse, htrees.trans ?_⟩
  rw [List.map_map]
  exact List.map_congr_left fun x _ => x.node_toVariable type.name

/-- Letters may be capital, a base may be left out, and each variable has stars, sizes and a value
of its own. -/
theorem declarationText_parses_unsigned :
    let name (c : Char) (starts : startsWord c = true)
        (plain : Token.Keyword.ofWord? [c] = none) : Identifier := ⟨c, [], starts, by simp, plain⟩
    let type : Specifier := ⟨[⟨⟨.unsignedKw, "Unsigned".toList, rfl⟩, rfl⟩], none, by simp⟩
    let p : Declared := ⟨1, name 'p' rfl rfl, [some ⟨3, by decide⟩, none], none⟩
    let n : Declared := ⟨0, name 'n' rfl rfl, [], some ⟨40, by decide⟩⟩
    let options : ParseSettings := { maxNesting := 1 }
    declarationText type [p, n] = "Unsigned *p[3][], n = 40;" ∧ [p, n] ≠ [] ∧
      1 ≤ options.maxNesting ∧
      ∃ tokens, tokenize (declarationText type [p, n]) = .ok tokens ∧
        ∃ nodes warnings, parse tokens options = ⟨.plain .program .start nodes, [], warnings⟩ ∧
          nodes.map Node.unplaced =
            [.texted .variableDeclaration "unsigned*[3][]" .start
              [.texted .variableDeclarator "p" .start
                [⟨.number, some (.number (.ofNat 3)), [], .start⟩, .absent .start]],
            .texted .variableDeclaration "unsigned" .start
              [.texted .variableDeclarator "n" .start [],
              ⟨.number, some (.number (.ofNat 40)), [], .start⟩]] := by
  intro name type p n options
  have hxs : [p, n] ≠ [] := by simp
  obtain ⟨tokens, htokens, hparse⟩ := declarationText_parses type hxs
  exact ⟨rfl, hxs, Nat.le_refl 1, tokens, htokens, hparse options (Nat.le_refl 1)⟩

end CSurvey
