/-!
Sets of characters given by ranges of code points. The character classes of this library are
tables of this form, one module a property.
-/

namespace CSurvey.Text

/-- Closed ranges of code points, in increasing order. -/
abbrev Ranges := List (Nat × Nat)

/-- Whether the code point of `c` lies in one of the ranges. -/
def Ranges.contains (ranges : Ranges) (c : Char) : Bool :=
  ranges.any fun r => r.1 ≤ c.toNat && c.toNat ≤ r.2

end CSurvey.Text
