import CSurvey.Number.Positional

/-!
JSON values and their texts: a compact one without blanks, and a pretty one with a line a member and
two blanks a level. Members keep their order. Numbers that JSON cannot hold are written as null.
-/

namespace CSurvey

/-- A JSON value. -/
inductive Json where
  | null
  | bool (value : Bool)
  | natural (value : Nat)
  | real (value : Binary64)
  | string (text : String)
  | array (items : List Json)
  | object (members : List (String × Json))
deriving Repr

namespace Json

/-- A text, or null. -/
def ofText? : Option String → Json
  | some text => .string text
  | none => .null

/-- A list of texts. -/
def ofTexts (texts : List String) : Json :=
  .array (texts.map .string)

/-- A control character by its code, in four hexadecimal digits. -/
def codeEscape (c : Char) : List Char :=
  let digits := Nat.toDigits 16 c.toNat
  '\\' :: 'u' :: (List.replicate (4 - digits.length) '0' ++ digits)

/-- One character of a string as it is written between the quotes. -/
def escapeChar (c : Char) : List Char :=
  match c with
  | '"' => ['\\', '"']
  | '\\' => ['\\', '\\']
  | '\x08' => ['\\', 'b']
  | '\x0c' => ['\\', 'f']
  | '\n' => ['\\', 'n']
  | '\r' => ['\\', 'r']
  | '\t' => ['\\', 't']
  | c => if c.toNat < 32 then codeEscape c else [c]

/-- A string in quotes. -/
def quoted (text : String) : List Char :=
  '"' :: (text.toList.flatMap escapeChar ++ ['"'])

/-- The greatest and the least power of ten of a first digit that is written in place. -/
def plainExponents : Int × Int := (15, -5)

/-- A decimal with digits as JSON writes it: in place, with one digit at least behind the point,
as long as the power of ten of the first digit allows it, else with that power behind an `e`. -/
def decimalText (d : Decimal) : List Char :=
  let digits := naturalText d.digits
  let exponent : Int := d.exponent + digits.length - 1
  if plainExponents.2 ≤ exponent && exponent ≤ plainExponents.1 then
    if d.exponent < 0 then d.positional else d.positional ++ ['.', '0']
  else
    let mantissa := match digits with
      | [c] => [c]
      | c :: cs => c :: '.' :: cs
      | [] => []
    let sign := if exponent < 0 then '-' else '+'
    mantissa ++ 'e' :: sign :: naturalText exponent.natAbs

/-- A number. Of two equally near digit strings the even one is written. -/
def realText : Binary64 → String
  | .nan | .infinite _ => "null"
  | .finite negative rank => signed negative (decimalText (Binary64.shortest .even rank))

/-- What a value without parts is written as; empty for the others. -/
def scalarText : Json → String
  | .null => "null"
  | .bool true => "true"
  | .bool false => "false"
  | .natural n => String.ofList (naturalText n)
  | .real x => realText x
  | .string text => String.ofList (quoted text)
  | .array _ | .object _ => ""

/-- The key of a member, with its colon. -/
def keyText (key : String) : String :=
  String.ofList (quoted key) ++ ":"

mutual

/-- The compact text. -/
def compact : Json → String
  | .array items => "[" ++ ",".intercalate (compactItems items) ++ "]"
  | .object members => "\x7b" ++ ",".intercalate (compactMembers members) ++ "\x7d"
  | value => value.scalarText

/-- The compact texts of the items of an array. -/
def compactItems : List Json → List String
  | [] => []
  | item :: items => item.compact :: compactItems items

/-- The compact texts of the members of an object. -/
def compactMembers : List (String × Json) → List String
  | [] => []
  | (key, value) :: members => (keyText key ++ value.compact) :: compactMembers members

end

/-- A line break and the blanks of a level. -/
def newLine (depth : Nat) : String :=
  "\n" ++ String.ofList (List.replicate (2 * depth) ' ')

/-- Parts between brackets, a line each; brackets without parts stand side by side. -/
def bracketed (opening closing : String) (depth : Nat) (parts : List String) : String :=
  if parts.isEmpty then opening ++ closing
  else
    opening ++ ",".intercalate (parts.map (newLine (depth + 1) ++ ·)) ++ newLine depth ++ closing

mutual

/-- The pretty text of a value that stands at a depth. -/
def prettyAt (depth : Nat) : Json → String
  | .array items => bracketed "[" "]" depth (prettyItems depth items)
  | .object members => bracketed "\x7b" "\x7d" depth (prettyMembers depth members)
  | value => value.scalarText

/-- The pretty texts of the items of an array. -/
def prettyItems (depth : Nat) : List Json → List String
  | [] => []
  | item :: items => item.prettyAt (depth + 1) :: prettyItems depth items

/-- The pretty texts of the members of an object. -/
def prettyMembers (depth : Nat) : List (String × Json) → List String
  | [] => []
  | (key, value) :: members =>
    (keyText key ++ " " ++ value.prettyAt (depth + 1)) :: prettyMembers depth members

end

/-- The pretty text. -/
def pretty (value : Json) : String :=
  value.prettyAt 0

end Json

end CSurvey
