/-!
Binary floating point numbers of 64 bits, in exact arithmetic. The finite numbers of one sign are
counted upwards from zero: the number of rank `r` is the `r`-th. Below rank 2^53 the steps are all
2^-1074; from there on every 2^52 ranks the step doubles.

`Binary64.ofRatio` takes a quotient to the nearest of these numbers, a half to the even rank.
-/

namespace CSurvey

/-- A binary64 number. A finite one is its sign and its rank among the magnitudes. -/
inductive Binary64 where
  | nan
  | infinite (negative : Bool)
  | finite (negative : Bool) (rank : Nat)
deriving DecidableEq, Repr, Inhabited

namespace Binary64

/-- The ranks for which the step is the same. -/
def block : Nat := Nat.pow 2 52

/-- The least magnitude is one over this number. -/
def scale : Nat := Nat.pow 2 1074

/-- The first rank that no finite number has: what rounds to it is infinite. -/
def overflow : Nat := 2047 * block

/-- By what power of two the step at rank `r` exceeds the least step. -/
def shift (r : Nat) : Nat := r / block - 1

/-- The magnitude of rank `r`, in units of the least magnitude. -/
def magnitude (r : Nat) : Nat := (r - shift r * block) * Nat.pow 2 (shift r)

/-- The quotient `n / d` to the nearest integer, a half to the even one. -/
def roundHalfEven (n d : Nat) : Nat :=
  let q := n / d
  let r := n % d
  if 2 * r < d then q
  else if d < 2 * r then q + 1
  else q + q % 2

/-- The rank nearest to `num / den`, a half to the even rank. -/
def rankOfRatio (num den : Nat) : Nat :=
  let units := num * scale
  let up := Nat.log2 (units / den) - 52
  up * block + roundHalfEven units (den * Nat.pow 2 up)

/-- The number nearest to `num / den`, infinite beyond the greatest finite one. -/
def ofRatio (negative : Bool) (num den : Nat) : Binary64 :=
  let rank := rankOfRatio num den
  if rank < overflow then .finite negative rank else .infinite negative

/-- The number nearest to `digits * 10 ^ exponent`. Exponents whose result is plainly infinite or
zero are settled without forming the power. -/
def ofDecimal (negative : Bool) (digits : Nat) (exponent : Int) : Binary64 :=
  if digits = 0 then .finite negative 0
  else match exponent with
    | .ofNat e =>
      if 310 < e then .infinite negative else ofRatio negative (digits * Nat.pow 10 e) 1
    | .negSucc e =>
      if Nat.log2 digits + 1101 < 3 * (e + 1) then .finite negative 0
      else ofRatio negative digits (Nat.pow 10 (e + 1))

end Binary64

end CSurvey
