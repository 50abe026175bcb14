import CSurvey.Findings
import CSurvey.Json.Lexeme

/-!
The limits of an examination, read from JSON: an object with any of the members `max_source_len`,
`max_depth` and `recover`, each at most once, or an array of their values in this order. What is
not given keeps its default. Other members are passed over, as long as they are JSON.
-/

namespace CSurvey

namespace Json

/-- A bracket or brace that is still open. -/
inductive Opened where
  | array
  | object
deriving DecidableEq, Repr

/-- What may come next while a value is passed over: a value; a value or the end of the array; a
key; a key or the end of the object; a comma or the end of what was opened last. -/
inductive Awaited where
  | value
  | valueOrEnd
  | key
  | keyOrEnd
  | commaOrEnd
deriving DecidableEq, Repr

/-- Passes over one value, whatever it is. `opened` holds what is still open, the last first; the
value is complete once nothing is. -/
def skipFrom (opened : List Opened) (awaited : Awaited) : List Lexeme → Option (List Lexeme)
  | [] => none
  | piece :: rest =>
    let close (opened : List Opened) :=
      match opened with
      | [] => some rest
      | opened => skipFrom opened .commaOrEnd rest
    let value :=
      match piece with
      | .openBracket => skipFrom (.array :: opened) .valueOrEnd rest
      | .openBrace => skipFrom (.object :: opened) .keyOrEnd rest
      | .null | .bool _ | .natural _ | .otherNumber | .string _ => close opened
      | _ => none
    let key :=
      match piece, rest with
      | .string _, .colon :: tail => skipFrom opened .value tail
      | _, _ => none
    match awaited, piece, opened with
    | .valueOrEnd, .closeBracket, .array :: outer => close outer
    | .keyOrEnd, .closeBrace, .object :: outer => close outer
    | .commaOrEnd, .closeBracket, .array :: outer => close outer
    | .commaOrEnd, .closeBrace, .object :: outer => close outer
    | .commaOrEnd, .comma, .array :: _ => skipFrom opened .value rest
    | .commaOrEnd, .comma, .object :: _ => skipFrom opened .key rest
    | .commaOrEnd, _, _ => none
    | .value, _, _ | .valueOrEnd, _, _ => value
    | .key, _, _ | .keyOrEnd, _, _ => key

/-- Passes over one value. -/
def skip (pieces : List Lexeme) : Option (List Lexeme) :=
  skipFrom [] .value pieces

/-- A number of 64 bits at the front. -/
def word? : List Lexeme → Option (Nat × List Lexeme)
  | .natural n :: rest => if n < UInt64.size then some (n, rest) else none
  | _ => none

/-- A truth value at the front. -/
def truth? : List Lexeme → Option (Bool × List Lexeme)
  | .bool b :: rest => some (b, rest)
  | _ => none

end Json

namespace Settings

open Json

/-- The members of an object that have been read. -/
structure Partial where
  maxBytes : Option Nat := none
  maxNesting : Option Nat := none
  recover : Option Bool := none
deriving DecidableEq, Repr

/-- What is given, and the defaults for the rest. -/
def Partial.complete (p : Partial) : Settings :=
  let standard : Settings := {}
  ⟨p.maxBytes.getD standard.maxBytes, p.maxNesting.getD standard.maxNesting,
    p.recover.getD standard.recover⟩

/-- Reads the value of one member. A member that has been read before is refused. -/
def Partial.member (p : Partial) (key : List Char) (pieces : List Lexeme) :
    Option (Partial × List Lexeme) :=
  if key = "max_source_len".toList then
    if p.maxBytes.isSome then none
    else (word? pieces).map fun (n, rest) => ({ p with maxBytes := some n }, rest)
  else if key = "max_depth".toList then
    if p.maxNesting.isSome then none
    else (word? pieces).map fun (n, rest) => ({ p with maxNesting := some n }, rest)
  else if key = "recover".toList then
    if p.recover.isSome then none
    else (truth? pieces).map fun (b, rest) => ({ p with recover := some b }, rest)
  else (skip pieces).map fun rest => (p, rest)

/-- Reads members up to the closing brace, which has to end the text. Each round takes a piece. -/
def readMembers : List Lexeme → Partial → List Lexeme → Option Partial
  | _ :: rounds, p, .string (some key) :: .colon :: rest => do
    let (p, rest) ← p.member key rest
    match rest with
    | [.closeBrace] => pure p
    | .comma :: more => readMembers rounds p more
    | _ => none
  | _, _, _ => none

/-- Reads an array of at most three values. -/
def readItems (pieces : List Lexeme) : Option Settings :=
  let standard : Settings := {}
  match pieces with
  | [.closeBracket] => some standard
  | pieces => do
    let (size, rest) ← word? pieces
    match rest with
    | [.closeBracket] => pure { standard with maxBytes := size }
    | .comma :: rest => do
      let (depth, rest) ← word? rest
      match rest with
      | [.closeBracket] => pure { standard with maxBytes := size, maxNesting := depth }
      | .comma :: rest => do
        let (recover, rest) ← truth? rest
        match rest with
        | [.closeBracket] => pure ⟨size, depth, recover⟩
        | _ => none
      | _ => none
    | _ => none

/-- The limits that a JSON text gives. -/
def ofJson? (text : String) : Option Settings := do
  match ← lexemes? text with
  | [.openBrace, .closeBrace] => pure {}
  | .openBrace :: members => (readMembers members {} members).map Partial.complete
  | .openBracket :: items => readItems items
  | _ => none

end Settings

end CSurvey
