import CSurvey.Number.Binary64

/-!
The fewest decimal digits that read back as a given binary64 number, and of these the nearest. For
one digit, two digits and so on, the two neighbours of the number on that decimal grid are tried;
the first grid with a hit wins. Two numbers that are as far away as each other are told apart by
the format that asks.
-/

namespace CSurvey

/-- The decimal `digits * 10 ^ exponent`. -/
structure Decimal where
  digits : Nat
  exponent : Int
deriving DecidableEq, Repr

namespace Decimal

/-- The same decimal without zeros at the end of its digits; `fuel` bounds their number. -/
def strip (fuel : Nat) (d : Decimal) : Decimal :=
  match fuel with
  | 0 => d
  | fuel + 1 =>
    if d.digits ≠ 0 ∧ d.digits % 10 = 0 then strip fuel ⟨d.digits / 10, d.exponent + 1⟩ else d

/-- The number of digits of `n`, none for zero; `fuel` bounds it. -/
def digitCount (fuel n : Nat) : Nat :=
  match fuel with
  | 0 => 0
  | fuel + 1 => if n = 0 then 0 else digitCount fuel (n / 10) + 1

end Decimal

/-- Which of two equally near decimals is taken. -/
inductive TieRule where
  | upward
  | even
deriving DecidableEq, Repr

/-- Of the neighbours `low` and `low + 1` of a number that lies `part / whole` above `low`, the
one to take, when `lowFits` and `highFits` say which of them read back. -/
def TieRule.choose (rule : TieRule) (low part whole : Nat) (lowFits highFits : Bool) :
    Option Nat :=
  if lowFits && highFits then
    if 2 * part < whole then some low
    else if whole < 2 * part then some (low + 1)
    else match rule with
      | .upward => some (low + 1)
      | .even => some (low + low % 2)
  else if lowFits then some low
  else if highFits then some (low + 1)
  else none

namespace Binary64

/-- How many zeros stand between the point and the first digit of `units / scale`, if they are
fewer than `fuel` more than `zeros`. -/
def zerosAfterPoint (units : Nat) (fuel zeros : Nat) : Nat :=
  match fuel with
  | 0 => zeros
  | fuel + 1 =>
    if scale ≤ units * Nat.pow 10 (zeros + 1) then zeros
    else zerosAfterPoint units fuel (zeros + 1)

/-- The place before the first digit of the magnitude `x` of rank `r`: the `t` with
`10 ^ (t - 1) ≤ x < 10 ^ t`. -/
def decimalTop (r : Nat) : Int :=
  let units := magnitude r
  if scale ≤ units then (Decimal.digitCount 310 (units / scale) : Int)
  else -(zerosAfterPoint units 400 0 : Int)

/-- The decimal with the given last place that reads back as rank `r`, if one of the two neighbours
does. -/
def onGrid (rule : TieRule) (r : Nat) (place : Int) : Option Decimal :=
  let num := magnitude r * Nat.pow 10 (-place).toNat
  let den := scale * Nat.pow 10 place.toNat
  let low := num / den
  let fits d := ofDecimal false d place = .finite false r
  (rule.choose low (num % den) den (fits low) (fits (low + 1))).map fun d => ⟨d, place⟩

/-- All digits of the magnitude of rank `r`: it is a whole number of units of ten to the -1074. -/
def exactDecimal (r : Nat) : Decimal :=
  ⟨magnitude r * Nat.pow 5 1074, -1074⟩

/-- The shortest decimal that reads back as the magnitude of rank `r`, without final zeros. Zero
has no digits. Seventeen digits always suffice; the exact digits stand in where none is found. -/
def shortest (rule : TieRule) (r : Nat) : Decimal :=
  if r = 0 then ⟨0, 0⟩
  else
    let top := decimalTop r
    match (List.range 17).findSome? fun n => onGrid rule r (top - (n + 1 : Nat)) with
    | some d => d.strip 20
    | none => (exactDecimal r).strip 2000

end Binary64

end CSurvey
