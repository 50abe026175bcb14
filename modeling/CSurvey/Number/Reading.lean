import CSurvey.Number.Binary64

/-!
Decimal numerals: an optional sign, digits with at most one point among or around them, and an
optional power of ten; or, in any letter case, `inf`, `infinity` or `nan`. The value is the nearest
binary64 number.
-/

namespace CSurvey.Numeral

/-- The natural number that the digits write. -/
def digitsValue (digits : List Char) : Nat :=
  digits.foldl (fun n c => 10 * n + (c.toNat - '0'.toNat)) 0

/-- Splits a sign off; no sign means not negative. -/
def splitSign : List Char → Bool × List Char
  | '-' :: cs => (true, cs)
  | '+' :: cs => (false, cs)
  | cs => (false, cs)

/-- The whole text as a natural number: one digit or more and nothing else. -/
def natural? (cs : List Char) : Option Nat :=
  if cs.isEmpty || !cs.all Char.isDigit then none else some (digitsValue cs)

/-- The power of ten after the digits: nothing, or `e` with an optional sign and digits. -/
def exponent? : List Char → Option Int
  | [] => some 0
  | c :: cs =>
    if c = 'e' || c = 'E' then
      let (negative, digits) := splitSign cs
      (natural? digits).map fun n => if negative then -(n : Int) else (n : Int)
    else none

/-- Digits with an optional point, then an optional power of ten: the digits as one number and the
power of ten of the last of them. -/
def decimal? (cs : List Char) : Option (Nat × Int) :=
  let whole := cs.takeWhile Char.isDigit
  let (fraction, rest) :=
    match cs.dropWhile Char.isDigit with
    | '.' :: tail => (tail.takeWhile Char.isDigit, tail.dropWhile Char.isDigit)
    | other => ([], other)
  if whole.isEmpty && fraction.isEmpty then none
  else (exponent? rest).map fun e => (digitsValue (whole ++ fraction), e - fraction.length)

/-- The names of the numbers without digits, in any letter case. -/
def named? (negative : Bool) (cs : List Char) : Option Binary64 :=
  let word := cs.map Char.toLower
  if word = "nan".toList then some .nan
  else if word = "inf".toList || word = "infinity".toList then some (.infinite negative)
  else none

/-- The number that a whole text writes, if it writes one. -/
def read (text : String) : Option Binary64 :=
  let (negative, cs) := splitSign text.toList
  match decimal? cs with
  | some (digits, exponent) => some (.ofDecimal negative digits exponent)
  | none => named? negative cs

end CSurvey.Numeral
