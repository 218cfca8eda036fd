import KeyRules.Json.Fault
import KeyRules.Json.Value
import KeyRules.Text.Scanner

/-!
# JSON numbers

A number with neither point nor exponent that fits 64 bits is exact. Any other number is a double made of its
first digits that fit 64 bits, scaled by powers of ten in floating point; one that overflows is refused.
-/

namespace KeyRules.Json

open Decimal Text Reader

/-! ## Scaling -/

def tenTo (n : Nat) : Option Binary64 := Binary64.nearest false (Nat.pow 10 n) 1

/-- Scales by a power of ten, one factor of at most `10 ^ 308` at a time. The count bounds the number
of factors; a double is zero after three. -/
def scaleDown : Nat → Binary64 → Nat → Option Binary64
  | 0, x, _ => some x
  | count + 1, x, n =>
    if n ≤ 308 then do x.div (← tenTo n)
    else if x.isZero then some x
    else do scaleDown count (← x.div (← tenTo 308)) (n - 308)

/-- The double for `digits · 10 ^ power`. -/
def scale (digits : Nat) (power : Int) : Option Binary64 := do
  let x ← Binary64.nearest false digits 1
  if power < 0 then scaleDown 5 x (-power).toNat
  else if power ≤ 308 then do x.mul (← tenTo power.toNat)
  else if x.isZero then some x
  else none

/-- The leading digits whose value fits 64 bits, and the digits that are left over. -/
def significand : Nat → List Char → Nat × List Char
  | n, [] => (n, [])
  | n, c :: cs =>
    let next := n * 10 + digitValue c
    if next < UInt64.size then significand next cs else (n, c :: cs)

/-- The leading digits of a number and the power of ten they stand for. Digits before the point that are
left over count as zeros, those after it are ignored. -/
def leading (whole fraction : List Char) : Nat × Int :=
  let (n, left) := significand 0 whole
  let (n, ignored) := significand n fraction
  (n, (left.length + ignored.length : Int) - fraction.length)

/-! ## Reading -/

/-- The digits before the point, without a leading zero. -/
def wholeDigits : Reader (List Char) := do
  match ← peek? with
  | none => stop .endOfValue
  | some '0' =>
    skip
    if (← peek?).any Char.isDigit then stop .invalidNumber else return ['0']
  | some c => if c.isDigit then run Char.isDigit else stop .invalidNumber

/-- The digits after the point, at least one, if there is a point. -/
def fractionDigits : Reader (Option (List Char)) := do
  if (← peek?) ≠ some '.' then return none
  skip
  let digits ← run Char.isDigit
  if digits.isEmpty then stop (if (← peek?).isNone then .endOfValue else .invalidNumber)
  return some digits

/-- The largest exponent of a number that is not zero. -/
def maxExponent : Nat := Int32.maxValue.toNatClampNeg

/-- The value of the digits of an exponent. With `isBounded` it stops at the digit that makes it too large. -/
def exponentDigits (isBounded : Bool) (n : Nat) : List Char → Except Stop (Nat × List Char)
  | [] => .ok (n, [])
  | c :: cs =>
    if c.isDigit then
      let next := n * 10 + digitValue c
      if isBounded && decide (maxExponent < next) then .error ⟨.outOfRange, cs, 0⟩
      else exponentDigits isBounded next cs
    else .ok (n, c :: cs)

/-- The sign of an exponent, true for a minus. -/
def exponentSign : Reader Bool := do
  match ← peek? with
  | some '-' => do skip; return true
  | some '+' => do skip; return false
  | _ => return false

/-- The exponent part, if there is one: `e`, a sign and at least one digit. -/
def exponent (isZero : Bool) : Reader (Option Int) := do
  let mark ← peek?
  if mark ≠ some 'e' ∧ mark ≠ some 'E' then return none
  skip
  let negative ← exponentSign
  match ← peek? with
  | none => stop .endOfValue
  | some c => if !c.isDigit then stop .invalidNumber
  let n ← exponentDigits (!isZero && !negative) 0
  return some (if negative then -n else n)

/-- A double, with its sign, unless it is infinite. -/
def finite (negative : Bool) (x : Option Binary64) : Reader Json :=
  match x with
  | some x => return real { x with negative := negative }
  | none => stopBefore .outOfRange

def number (negative : Bool) : Reader Json := do
  let whole ← wholeDigits
  let fraction ← fractionDigits
  let (n, power) := leading whole (fraction.getD [])
  let exponent ← exponent (n = 0)
  let value := digitsValue 10 whole
  if fraction.isSome ∨ exponent.isSome then finite negative (scale n (power + exponent.getD 0))
  else if negative ∧ 0 < value ∧ value ≤ Int64.minValue.toInt.natAbs then return int (-value)
  else if !negative ∧ value < UInt64.size then return int value
  else finite negative (scale n power)

end KeyRules.Json
