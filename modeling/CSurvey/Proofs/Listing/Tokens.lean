import CSurvey.Proofs.Listing.Rows
import CSurvey.Proofs.Number.ReadBack
import CSurvey.Proofs.Text.Escaped

/-! # The listing of tokens

A line of the listing says all of its token: blanks end the place and the name of the kind, a colon
ends the number of the line, and the rest of the line is the text, escaped. -/

namespace CSurvey

/-! ## Reading a line -/

/-- The place that a text with a colon writes. -/
def Position.ofText (text : List Char) : Position :=
  ⟨Numeral.digitsValue (text.takeWhile (· ≠ ':')),
    Numeral.digitsValue ((text.dropWhile (· ≠ ':')).drop 1)⟩

/-- The token that a line writes. -/
def Token.ofLine? (line : List Char) : Option Token :=
  let behind := (line.dropWhile (· ≠ ' ')).drop 1
  let text := (behind.dropWhile (· ≠ ' ')).drop 1
  (Kind.ofName? (String.ofList (behind.takeWhile (· ≠ ' ')))).map fun kind =>
    ⟨kind, String.ofList (Text.unescaped text), .ofText (line.takeWhile (· ≠ ' '))⟩

/-- The tokens that a listing writes, a line each. -/
def Token.ofListing? (listing : String) : Option (List Token) :=
  (listing.toList.splitOn '\n').dropLast.mapM Token.ofLine?

/-! ## Lines that are written -/

/-- The first of two parts with a separator between them, and what is behind the separator. -/
theorem Text.parts_of_separator {separator : Char} {cs : List Char} (h : separator ∉ cs)
    (rest : List Char) :
    (cs ++ separator :: rest).takeWhile (· ≠ separator) = cs ∧
      ((cs ++ separator :: rest).dropWhile (· ≠ separator)).drop 1 = rest := by
  have hcs : ∀ c ∈ cs, decide (c ≠ separator) = true := by
    rintro c hc
    refine decide_eq_true ?_
    rintro rfl
    exact h hc
  have hstop : ∀ c ∈ (separator :: rest).head?, decide (c ≠ separator) = false := by simp
  obtain ⟨htake, hdrop⟩ := Token.Lexeme.takeWhile_append hcs hstop
  exact ⟨htake, by rw [hdrop]; rfl⟩

namespace Position

theorem toList_text (p : Position) :
    p.text.toList = naturalText p.line ++ ':' :: naturalText p.column := by
  simp [text, naturalText]
  rfl

theorem not_mem_naturalText {c : Char} (hc : c.isDigit = false) (n : Nat) :
    c ∉ naturalText n := fun h => by
  rw [isDigit_of_mem_naturalText h] at hc
  contradiction

theorem ofText_text (p : Position) : ofText p.text.toList = p := by
  obtain ⟨hline, hcolumn⟩ := Text.parts_of_separator
    (not_mem_naturalText (c := ':') (by decide) p.line) (naturalText p.column)
  rw [ofText, toList_text, hline, hcolumn, Numeral.digitsValue_naturalText,
    Numeral.digitsValue_naturalText]

theorem not_mem_text {c : Char} (hc : c.isDigit = false) (hcolon : c ≠ ':') (p : Position) :
    c ∉ p.text.toList := by
  rw [toList_text, List.mem_append, List.mem_cons, not_or, not_or]
  exact ⟨not_mem_naturalText hc _, hcolon, not_mem_naturalText hc _⟩

end Position

namespace Token

theorem Kind.names_plain : ∀ k ∈ Kind.all,
    k.name.toList.all (fun c => c ≠ ' ' && c ≠ '\n') ∧ Kind.ofName? k.name = some k := by
  decide +kernel

theorem Kind.name_plain (k : Kind) : ∀ c ∈ k.name.toList, c ≠ ' ' ∧ c ≠ '\n' := by
  simpa using (names_plain k k.mem_all).1

theorem Kind.ofName?_name (k : Kind) : Kind.ofName? k.name = some k :=
  (names_plain k k.mem_all).2

theorem toList_tokenLine (t : Token) : (Findings.tokenLine t).toList =
    t.location.text.toList ++ ' ' :: (t.kind.name.toList ++
      ' ' :: Text.escapeChars t.text.toList) := by
  simp [Findings.tokenLine, Text.escaped]

/-- A token is read from its line. -/
theorem ofLine?_tokenLine (t : Token) : ofLine? (Findings.tokenLine t).toList = some t := by
  have hplace : ' ' ∉ t.location.text.toList := t.location.not_mem_text (by decide) (by decide)
  have hname : ' ' ∉ t.kind.name.toList := fun h => (t.kind.name_plain _ h).1 rfl
  obtain ⟨hbefore, hbehind⟩ := Text.parts_of_separator hplace
    (t.kind.name.toList ++ ' ' :: Text.escapeChars t.text.toList)
  obtain ⟨hkind, htext⟩ := Text.parts_of_separator hname (Text.escapeChars t.text.toList)
  rw [ofLine?, toList_tokenLine, hbefore, hbehind, hkind, htext, String.ofList_toList,
    Kind.ofName?_name, Position.ofText_text, Text.unescaped_escapeChars, String.ofList_toList]
  rfl

theorem mapM_ofLine?_tokenLine (tokens : List Token) :
    (tokens.map fun t => (Findings.tokenLine t).toList).mapM ofLine? = some tokens := by
  induction tokens with
  | nil => rfl
  | cons t tokens ih => simp [ofLine?_tokenLine, ih]

theorem newline_not_mem_tokenLine (t : Token) : '\n' ∉ (Findings.tokenLine t).toList := by
  have hplace : '\n' ∉ t.location.text.toList := t.location.not_mem_text (by decide) (by decide)
  have hname : '\n' ∉ t.kind.name.toList := fun h => (t.kind.name_plain _ h).2 rfl
  have htext := Text.newline_not_mem_escapeChars t.text.toList
  simp [toList_tokenLine, hplace, hname, htext]

end Token

/-- The listing of tokens has a line for each token, and the tokens are read from it again: their
kinds, their texts and their places. So no two lists of tokens have the same listing. -/
theorem tokenListing_readsBack (f : Findings) :
    f.tokenListing.toList.splitOn '\n' =
        f.tokens.map (fun t => (Findings.tokenLine t).toList) ++ [[]] ∧
      Token.ofListing? f.tokenListing = some f.tokens ∧
      ∀ g : Findings, f.tokenListing = g.tokenListing ↔ f.tokens = g.tokens := by
  have hlines : ∀ f : Findings, ∀ line ∈ f.tokens.map Findings.tokenLine,
      '\n' ∉ line.toList := by
    intro f line hline
    obtain ⟨t, -, rfl⟩ := List.mem_map.mp hline
    exact t.newline_not_mem_tokenLine
  have hsplit : ∀ f : Findings, f.tokenListing.toList.splitOn '\n' =
      f.tokens.map (fun t => (Findings.tokenLine t).toList) ++ [[]] := fun f =>
    (Findings.splitOn_asLines (hlines f)).trans (congrArg (· ++ [[]]) List.map_map)
  have hread : ∀ f : Findings, Token.ofListing? f.tokenListing = some f.tokens := by
    intro f
    rw [Token.ofListing?, hsplit f, List.dropLast_concat, Token.mapM_ofLine?_tokenLine]
  refine ⟨hsplit f, hread f, fun g => ⟨fun h => ?_, fun h => ?_⟩⟩
  · exact Option.some.inj ((hread f).symm.trans (h ▸ hread g))
  · rw [Findings.tokenListing, h, Findings.tokenListing]

end CSurvey
