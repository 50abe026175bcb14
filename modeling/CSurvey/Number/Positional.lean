import CSurvey.Number.Shortest

/-!
The plain text of a number: the shortest digits that read back, every place written out, never an
exponent and no point without a digit behind it. Of two equally near digit strings the upper one is
written.
-/

namespace CSurvey

/-- The decimal digits of `n`. -/
def naturalText (n : Nat) : List Char :=
  Nat.toDigits 10 n

/-- A decimal with all its places. A place between the point and the first digit holds a zero. -/
def Decimal.positional (d : Decimal) : List Char :=
  let digits := naturalText d.digits
  match d.exponent with
  | .ofNat e => digits ++ List.replicate e '0'
  | .negSucc e =>
    let places := e + 1
    if places < digits.length then
      digits.take (digits.length - places) ++ '.' :: digits.drop (digits.length - places)
    else '0' :: '.' :: (List.replicate (places - digits.length) '0' ++ digits)

/-- A minus sign for negative numbers, zero included. -/
def signed (negative : Bool) (text : List Char) : String :=
  String.ofList (if negative then '-' :: text else text)

/-- The plain text of a number. -/
def Binary64.text : Binary64 → String
  | .nan => "NaN"
  | .infinite negative => signed negative "inf".toList
  | .finite negative rank => signed negative (shortest .upward rank).positional

end CSurvey
