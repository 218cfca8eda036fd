/-!
# Ranges of code points

What the Unicode database says of characters is kept in tables of code points, which are sorted and in
parts.
-/

namespace KeyRules.Text

/-- A code point in one of the ranges. -/
def isWithin (parts : List (List (Nat × Nat))) (n : Nat) : Bool :=
  parts.any fun part => part.any fun (low, high) => low ≤ n && n ≤ high

/-- Every `step`th code point from `first` to `last` is a capital letter. The small letter of the first
one is `small`, and the others have theirs at the same distance. -/
structure Capitals where
  first : Nat
  last : Nat
  step : Nat
  small : Nat
  deriving DecidableEq, Repr

def Capitals.small? (r : Capitals) (n : Nat) : Option Nat :=
  if r.first ≤ n ∧ n ≤ r.last ∧ (n - r.first) % r.step = 0 then some (r.small + (n - r.first)) else none

end KeyRules.Text
