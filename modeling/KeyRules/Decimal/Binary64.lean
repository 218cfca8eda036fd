/-!
# Double precision, exactly

A finite double is `± mantissa · 2 ^ exponent`. `nearest` rounds a ratio to the closest double, a
half to the even mantissa, and products and quotients are rounded ratios. `shortest` finds the
fewest decimal digits that round back to the same double. All of it is arithmetic on natural
numbers, so nothing depends on the machine's floating point.
-/

namespace KeyRules.Decimal

/-- Where a half goes: to the even neighbour or away from zero. -/
inductive Half where
  | toEven
  | away
  deriving DecidableEq, Repr

def roundDiv (half : Half) (num den : Nat) : Nat :=
  let quotient := num / den
  let rest := num % den
  if 2 * rest < den then quotient
  else if den < 2 * rest then quotient + 1
  else
    match half with
    | .toEven => quotient + quotient % 2
    | .away => quotient + 1

/-- The ratio `num / den` divided by `base ^ power`. -/
def shiftRatio (base : Nat) (power : Int) (num den : Nat) : Nat × Nat :=
  if 0 ≤ power then (num, den * base.pow power.toNat) else (num * base.pow (-power).toNat, den)

/-- A finite double. The mantissa is below `2 ^ 53`, and it is at least `2 ^ 52` unless the exponent
is the least one, `-1074`; so equal doubles are equal values. -/
structure Binary64 where
  negative : Bool
  mantissa : Nat
  exponent : Int
  deriving DecidableEq, Repr

namespace Binary64

def zero (negative : Bool) : Binary64 := ⟨negative, 0, -1074⟩

def isZero (x : Binary64) : Bool := x.mantissa = 0

/-- The double next to `num / den`, and `none` when that is infinite. -/
def nearest (negative : Bool) (num den : Nat) : Option Binary64 :=
  if num = 0 then some (zero negative)
  else
    let guess : Int := (num.log2 : Int) - den.log2 - 52
    let (n, d) := shiftRatio 2 guess num den
    let least := max (if n / d < Nat.pow 2 52 then guess - 1 else guess) (-1074)
    let (n, d) := shiftRatio 2 least num den
    let mantissa := roundDiv .toEven n d
    let (mantissa, exponent) :=
      if mantissa = Nat.pow 2 53 then (Nat.pow 2 52, least + 1) else (mantissa, least)
    if 971 < exponent then none else some ⟨negative, mantissa, exponent⟩

def ratio (x : Binary64) : Nat × Nat := shiftRatio 2 (-x.exponent) x.mantissa 1

/-- The rounded product, `none` on overflow. -/
def mul (x y : Binary64) : Option Binary64 :=
  nearest (x.negative != y.negative) (x.ratio.1 * y.ratio.1) (x.ratio.2 * y.ratio.2)

/-- The rounded quotient by a divisor that is not zero, `none` on overflow. -/
def div (x y : Binary64) : Option Binary64 :=
  nearest (x.negative != y.negative) (x.ratio.1 * y.ratio.2) (x.ratio.2 * y.ratio.1)

/-- The double next to `digits · 10 ^ power`. -/
def ofDecimal (negative : Bool) (digits : Nat) (power : Int) : Option Binary64 :=
  let (num, den) := shiftRatio 10 (-power) digits 1
  nearest negative num den

def digitCount (n : Nat) : Nat := (Nat.toDigits 10 n).length

/-- The power of ten of the leading digit of a positive ratio. -/
def leadingPlace (num den : Nat) : Int :=
  if den ≤ num then digitCount (num / den) - 1 else -(digitCount ((den - 1) / num) : Int)

/-- Drops trailing zeros of `digits`, at most `count` of them, raising the power instead. -/
def dropZeros : Nat → Nat → Int → Nat × Int
  | 0, digits, power => (digits, power)
  | count + 1, digits, power =>
    if digits % 10 = 0 ∧ digits ≠ 0 then dropZeros count (digits / 10) (power + 1) else (digits, power)

/-- The multiple of `10 ^ power` next to a magnitude among its two neighbours on that grid, if one of
them rounds back to the double. Of two that are equally near `half` chooses. -/
def onGrid (half : Half) (x : Binary64) (power : Int) : Option (Nat × Int) :=
  let (num, den) := shiftRatio 10 power x.ratio.1 x.ratio.2
  let low := num / den
  let readsBack (digits : Nat) : Bool := ofDecimal x.negative digits power == some x
  match readsBack low, readsBack (low + 1) with
  | true, true => some (roundDiv half num den, power)
  | true, false => some (low, power)
  | false, true => some (low + 1, power)
  | false, false => none

/-- The fewest digits that round back to the double, as `digits · 10 ^ power`. -/
def shortest (half : Half) (x : Binary64) : Nat × Int :=
  if x.isZero then (0, 0)
  else
    let place := leadingPlace x.ratio.1 x.ratio.2
    match (List.range 17).findSome? fun (more : Nat) => onGrid half x (place - more) with
    | some (digits, power) => dropZeros 17 digits power
    | none => (x.mantissa, 0)

def zeros (count : Nat) : String := String.ofList (List.replicate count '0')

/-- Writes `digits · 10 ^ power` with a point and no exponent; a whole number ends in `.0`. -/
def positional (digits : Nat) (power : Int) : String :=
  let text := Nat.toDigits 10 digits
  let whole : Int := text.length + power
  if 0 ≤ power then String.ofList text ++ zeros power.toNat ++ ".0"
  else if 0 < whole then
    String.ofList (text.take whole.toNat) ++ "." ++ String.ofList (text.drop whole.toNat)
  else "0." ++ zeros (-whole).toNat ++ String.ofList text

/-- Writes `digits · 10 ^ power` with one digit before the point and an exponent. `plus` stands before an
exponent that is not negative. -/
def scientific (plus : String) (digits : Nat) (power : Int) : String :=
  let text := Nat.toDigits 10 digits
  let place : Int := text.length - 1 + power
  let fraction := if text.length = 1 then "" else "." ++ String.ofList (text.drop 1)
  String.ofList (text.take 1) ++ fraction ++ "e" ++ (if place < 0 then "" else plus) ++ toString place

/-- How a format writes doubles. -/
structure Style where
  /-- Which of two shortest decimals that are equally near is written. -/
  half : Half
  /-- For which power of ten of the leading digit the text has no exponent. -/
  isPlain : Int → Bool
  /-- The sign of an exponent that is not negative. -/
  plus : String

/-- The shortest decimal text. -/
def text (style : Style) (x : Binary64) : String :=
  let (digits, power) := shortest style.half x
  let place : Int := digitCount digits - 1 + power
  let magnitude :=
    if style.isPlain place then positional digits power else scientific style.plus digits power
  if x.negative then "-" ++ magnitude else magnitude

end Binary64

end KeyRules.Decimal
