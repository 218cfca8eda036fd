/-!
# Scanners

A scanner reads a value off the front of a character list and leaves the rest, or fails. Choice
(`<|>`) goes back to where the first alternative started.
-/

namespace KeyRules.Text

abbrev Scanner := StateT (List Char) Option

namespace Scanner

/-- The next character, which stays unread. -/
def peek? : Scanner (Option Char) := fun cs => some (cs.head?, cs)

def next : Scanner Char
  | [] => none
  | c :: cs => some (c, cs)

/-- Reads one character of a class. -/
def satisfy (p : Char → Bool) : Scanner Char
  | [] => none
  | c :: cs => if p c then some (c, cs) else none

def char (c : Char) : Scanner Unit := do
  let _ ← satisfy (· == c)

/-- Reads exactly these characters. -/
def exact (expected : List Char) : Scanner Unit := fun cs =>
  if expected.isPrefixOf cs then some ((), cs.drop expected.length) else none

/-- Reads the character if it comes next, and says whether it did. -/
def accept (c : Char) : Scanner Bool := fun cs =>
  match cs with
  | [] => some (false, [])
  | d :: rest => if d == c then some (true, rest) else some (false, cs)

/-- Reads the longest run of a class, which may be empty. -/
def run (p : Char → Bool) : Scanner (List Char) := fun cs => some (cs.takeWhile p, cs.dropWhile p)

/-- Reads the longest run of a class, at least one character. -/
def run1 (p : Char → Bool) : Scanner (List Char) := do
  let cs ← run p
  if cs.isEmpty then failure else pure cs

/-- Reads exactly `n` characters of a class. -/
def count (n : Nat) (p : Char → Bool) : Scanner (List Char) := fun cs =>
  let taken := cs.take n
  if taken.length = n ∧ taken.all p then some (taken, cs.drop n) else none

/-- As many values as there are, at most `n` of them. -/
def many : Nat → Scanner α → Scanner (List α)
  | 0, _ => pure []
  | n + 1, s => (do let a ← s; return a :: (← many n s)) <|> pure []

/-- Values with separators between them, at most `n + 1` of them, and at least one. -/
def separated (n : Nat) (separator : Scanner Unit) (s : Scanner α) : Scanner (List α) := do
  let a ← s
  return a :: (← many n (do separator; s))

/-- Succeeds at the end of the text only. -/
def atEnd : Scanner Unit
  | [] => some ((), [])
  | _ :: _ => none

/-- What a scanner makes of a whole text. -/
def all (s : Scanner α) (text : String) : Option α :=
  ((do let a ← s; atEnd; pure a : Scanner α) text.toList).map (·.1)

end Scanner

/-- The value of a digit in any base up to sixteen. -/
def digitValue (c : Char) : Nat :=
  if c.isDigit then c.toNat - '0'.toNat
  else if 'a' ≤ c then c.toNat - 'a'.toNat + 10
  else c.toNat - 'A'.toNat + 10

/-- The number that a run of digits names. -/
def digitsValue (base : Nat) (digits : List Char) : Nat :=
  digits.foldl (fun n c => n * base + digitValue c) 0

def isHexDigit (c : Char) : Bool := c.isDigit || ('a' ≤ c && c ≤ 'f') || ('A' ≤ c && c ≤ 'F')

/-- The character at a code point, unless the number is none. -/
def charOfCode? (n : Nat) : Option Char := if n.isValidChar then some (Char.ofNat n) else none

end KeyRules.Text
