import CSurvey.Number.Reading

/-!
The lexemes of JSON text. A string is kept decoded, as far as it decodes: an escape may leave half
of a surrogate pair, which no text can hold. A number is kept by its kind, since all that is ever
asked of it is whether it is a plain natural number.
-/

namespace CSurvey.Json

/-- A piece of JSON text. -/
inductive Lexeme where
  | openBrace | closeBrace | openBracket | closeBracket | comma | colon
  | null
  | bool (value : Bool)
  | natural (value : Nat)
  | otherNumber
  | string (decoded : Option (List Char))
deriving DecidableEq, Repr

/-- The blanks between pieces. -/
def isGap (c : Char) : Bool :=
  c = ' ' || c = '\n' || c = '\t' || c = '\r'

/-- The value of a hexadecimal digit of either case. -/
def hexValue? (c : Char) : Option Nat :=
  if c.isDigit then some (c.toNat - '0'.toNat)
  else if 'a' ≤ c && c ≤ 'f' then some (c.toNat - 'a'.toNat + 10)
  else if 'A' ≤ c && c ≤ 'F' then some (c.toNat - 'A'.toNat + 10)
  else none

/-- A code unit of sixteen bits in four hexadecimal digits. -/
def codeUnit? : List Char → Option Nat
  | [a, b, c, d] => do
    let a ← hexValue? a
    let b ← hexValue? b
    let c ← hexValue? c
    let d ← hexValue? d
    pure (((a * 16 + b) * 16 + c) * 16 + d)
  | _ => none

/-- What an escape of one letter stands for. -/
def shortEscape? : Char → Option Char
  | '"' => some '"'
  | '\\' => some '\\'
  | '/' => some '/'
  | 'b' => some '\x08'
  | 'f' => some '\x0c'
  | 'n' => some '\n'
  | 'r' => some '\r'
  | 't' => some '\t'
  | _ => none

/-- A string as it is read: characters, and code units from escapes. -/
inductive Unit16 where
  | char (c : Char)
  | code (unit : Nat)
deriving DecidableEq, Repr

/-- The text that units write; `none` if half of a surrogate pair stands alone. -/
def decodeUnits : List Unit16 → Option (List Char)
  | [] => some []
  | .char c :: rest => (decodeUnits rest).map (c :: ·)
  | .code high :: .code low :: rest =>
    if 0xd800 ≤ high && high < 0xdc00 then
      if 0xdc00 ≤ low && low < 0xe000 then
        let point := 0x10000 + (high - 0xd800) * 0x400 + (low - 0xdc00)
        (decodeUnits rest).map (Char.ofNat point :: ·)
      else none
    else if 0xdc00 ≤ high && high < 0xe000 then none
    else (decodeUnits (.code low :: rest)).map (Char.ofNat high :: ·)
  | .code unit :: rest =>
    if 0xd800 ≤ unit && unit < 0xe000 then none
    else (decodeUnits rest).map (Char.ofNat unit :: ·)

/-- The units of a string up to its closing quote, and what follows. -/
def stringUnits : List Char → Option (List Unit16 × List Char)
  | [] => none
  | '"' :: rest => some ([], rest)
  | '\\' :: 'u' :: a :: b :: c :: d :: rest => do
    let unit ← codeUnit? [a, b, c, d]
    let (units, left) ← stringUnits rest
    pure (.code unit :: units, left)
  | '\\' :: c :: rest => do
    let c ← shortEscape? c
    let (units, left) ← stringUnits rest
    pure (.char c :: units, left)
  | c :: rest =>
    if c = '\\' || c.toNat < 32 then none
    else do
      let (units, left) ← stringUnits rest
      pure (.char c :: units, left)

/-- Digits, one at least. -/
def digits? (cs : List Char) : Option (List Char × List Char) :=
  let digits := cs.takeWhile Char.isDigit
  if digits.isEmpty then none else some (digits, cs.dropWhile Char.isDigit)

/-- The digits before the point: a zero, or digits that start with none. -/
def wholeDigits? (cs : List Char) : Option (List Char × List Char) :=
  match cs with
  | '0' :: rest =>
    if (rest.head?.map Char.isDigit).getD false then none else some (['0'], rest)
  | cs => digits? cs

/-- A point with digits behind it, if one stands next; the flag says so. -/
def fraction? : List Char → Option (Bool × List Char)
  | '.' :: rest => (digits? rest).map fun (_, left) => (true, left)
  | rest => some (false, rest)

/-- A power of ten, if one stands next; the flag says so. -/
def power? : List Char → Option (Bool × List Char)
  | c :: rest =>
    if c = 'e' || c = 'E' then
      (digits? (Numeral.splitSign rest).2).map fun (_, left) => (true, left)
    else some (false, c :: rest)
  | [] => some (false, [])

/-- A number without its minus sign, and what follows. -/
def number? (negative : Bool) (cs : List Char) : Option (Lexeme × List Char) := do
  let (whole, rest) ← wholeDigits? cs
  let (fractional, rest) ← fraction? rest
  let (powered, rest) ← power? rest
  if negative || fractional || powered then pure (.otherNumber, rest)
  else pure (.natural (Numeral.digitsValue whole), rest)

/-- The piece at the front of a text, and what follows. -/
def lexeme? : List Char → Option (Lexeme × List Char)
  | [] => none
  | '\x7b' :: rest => some (.openBrace, rest)
  | '\x7d' :: rest => some (.closeBrace, rest)
  | '[' :: rest => some (.openBracket, rest)
  | ']' :: rest => some (.closeBracket, rest)
  | ',' :: rest => some (.comma, rest)
  | ':' :: rest => some (.colon, rest)
  | 'n' :: 'u' :: 'l' :: 'l' :: rest => some (.null, rest)
  | 't' :: 'r' :: 'u' :: 'e' :: rest => some (.bool true, rest)
  | 'f' :: 'a' :: 'l' :: 's' :: 'e' :: rest => some (.bool false, rest)
  | '"' :: rest => (stringUnits rest).map fun (units, left) => (.string (decodeUnits units), left)
  | '-' :: rest => number? true rest
  | rest => number? false rest

/-- All pieces of a text, if it is made of pieces. Each takes a character, so the characters bound
the rounds. -/
def lexemesFrom : List Char → List Char → Option (List Lexeme)
  | _, [] => some []
  | [], _ => none
  | _ :: rounds, c :: cs =>
    if isGap c then lexemesFrom rounds cs
    else do
      let (piece, rest) ← lexeme? (c :: cs)
      let pieces ← lexemesFrom rounds rest
      pure (piece :: pieces)

/-- All pieces of a text. -/
def lexemes? (text : String) : Option (List Lexeme) :=
  lexemesFrom text.toList text.toList

end CSurvey.Json
