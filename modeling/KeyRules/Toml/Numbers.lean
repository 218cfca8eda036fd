import KeyRules.Text.Scanner
import KeyRules.Toml.Value

/-!
# TOML numbers and times

Integers fit 64 bits with a sign. An underscore may stand between two digits. Floats are rounded to the
nearest double, and one that is too large is refused unless it is negative.
-/

namespace KeyRules.Toml.Scan

open Decimal Text Text.Scanner

/-- The digits after the first one, without the underscores between them. -/
def moreDigits (isDigit : Char → Bool) : List Char → Option (List Char × List Char)
  | [] => some ([], [])
  | '_' :: c :: rest =>
    if isDigit c then (moreDigits isDigit rest).map fun (cs, left) => (c :: cs, left) else none
  | c :: rest =>
    if isDigit c then (moreDigits isDigit rest).map fun (cs, left) => (c :: cs, left)
    else if c = '_' then none
    else some ([], c :: rest)

/-- Digits with single underscores between them. -/
def digits (isDigit : Char → Bool) : Scanner (List Char) := do
  let first ← satisfy isDigit
  return first :: (← moreDigits isDigit)

/-- The sign of a number, true for a minus. -/
def sign : Scanner Bool := (do char '-'; pure true) <|> (do char '+'; pure false) <|> pure false

/-- Decimal digits without a leading zero. -/
def decimalDigits : Scanner (List Char) := (do char '0'; pure ['0']) <|> digits Char.isDigit

def isOctalDigit (c : Char) : Bool := '0' ≤ c && c ≤ '7'

def isBinaryDigit (c : Char) : Bool := c = '0' || c = '1'

/-- An integer in another base after its mark. -/
def basedInteger (mark : String) (base : Nat) (isDigit : Char → Bool) : Scanner Int := do
  exact mark.toList
  return digitsValue base (← digits isDigit)

def decimalInteger : Scanner Int := do
  let negative ← sign
  let n : Int := digitsValue 10 (← decimalDigits)
  return if negative then -n else n

def integer : Scanner Int := do
  let n ← basedInteger "0x" 16 isHexDigit <|> basedInteger "0o" 8 isOctalDigit
    <|> basedInteger "0b" 2 isBinaryDigit <|> decimalInteger
  if Int64.minValue.toInt ≤ n ∧ n ≤ Int64.maxValue.toInt then return n else failure

/-- The exponent part of a float. -/
def exponent : Scanner Int := do
  let _ ← satisfy fun c => c = 'e' || c = 'E'
  let negative ← sign
  let n : Int := digitsValue 10 (← digits Char.isDigit)
  return if negative then -n else n

/-- The double of a decimal. Powers far outside the range are decided without computing them. -/
def rounded (negative : Bool) (mantissa : Nat) (power : Int) : TomlFloat :=
  let place : Int := Binary64.digitCount mantissa + power
  if mantissa = 0 ∨ place < -400 then .finite (Binary64.zero negative)
  else if 400 < place then .infinite negative
  else
    match Binary64.ofDecimal negative mantissa power with
    | some x => .finite x
    | none => .infinite negative

def decimalFloat : Scanner TomlFloat := do
  let negative ← sign
  let whole ← decimalDigits
  let fraction ← optional (do char '.'; digits Char.isDigit)
  let power ← optional exponent
  if fraction.isNone ∧ power.isNone then failure
  let fraction := fraction.getD []
  let x := rounded negative (digitsValue 10 (whole ++ fraction)) (power.getD 0 - fraction.length)
  if x = .infinite false then failure else return x

def specialFloat : Scanner TomlFloat := do
  let negative ← sign
  (do exact "inf".toList; return .infinite negative) <|> (do exact "nan".toList; return .notANumber)

def float : Scanner TomlFloat := decimalFloat <|> specialFloat

/-! ## Dates and times -/

/-- A number of exactly `n` digits in a range. -/
def field (n low high : Nat) : Scanner Nat := do
  let value := digitsValue 10 (← count n Char.isDigit)
  if low ≤ value ∧ value ≤ high then return value else failure

/-- How many days a month has. -/
def daysIn (year month : Nat) : Nat :=
  if month = 2 then
    if year % 4 = 0 ∧ (year % 100 ≠ 0 ∨ year % 400 = 0) then 29 else 28
  else if month ∈ [4, 6, 9, 11] then 30
  else 31

def date : Scanner Unit := do
  let year ← field 4 0 9999
  char '-'
  let month ← field 2 1 12
  char '-'
  let day ← field 2 1 31
  if daysIn year month < day then failure

def time : Scanner Unit := do
  let _ ← field 2 0 23
  char ':'
  let _ ← field 2 0 59
  char ':'
  let _ ← field 2 0 60
  let _ ← optional (do char '.'; run1 Char.isDigit)

def offset : Scanner Unit :=
  (do let _ ← satisfy fun c => c = 'Z' || c = 'z')
    <|> (do
      let _ ← satisfy fun c => c = '+' || c = '-'
      let _ ← field 2 0 23
      char ':'
      let _ ← field 2 0 59)

/-- A date with an optional time and offset, or a time. -/
def datetime : Scanner Unit :=
  (do
    date
    let _ ← optional (do
      let _ ← satisfy fun c => c = 'T' || c = 't' || c = ' '
      time
      optional offset))
    <|> time

end KeyRules.Toml.Scan
