import KeyRules.Json.Number

/-!
# Reading JSON

A text is one value between blanks, with no byte-order mark, no trailing comma and at most 127
levels of lists and objects.
-/

namespace KeyRules.Json

open Text Reader

/-! ## Strings -/

/-- The code of an escape with four hexadecimal digits. -/
def hex4 (a b c d : Char) : Option Nat :=
  if [a, b, c, d].all isHexDigit then some (digitsValue 16 [a, b, c, d]) else none

/-- The stop at characters that are no four hexadecimal digits. Four bytes are looked at. -/
def noHex (cs : List Char) : Stop :=
  if byteCount cs < 4 then ⟨.endOfString, [], 0⟩ else ⟨.invalidEscape, cs, 4⟩

/-- The character that a short escape stands for. -/
def shortEscape : Char → Option Char
  | '"' => some '"'
  | '\\' => some '\\'
  | '/' => some '/'
  | 'b' => some '\x08'
  | 'f' => some '\x0c'
  | 'n' => some '\n'
  | 'r' => some '\r'
  | 't' => some '\t'
  | _ => none

/-- The first half of a surrogate pair. -/
def isHigh (code : Nat) : Bool := 0xD800 ≤ code && code < 0xDC00

/-- The second half of a surrogate pair. -/
def isLow (code : Nat) : Bool := 0xDC00 ≤ code && code < 0xE000

def paired (high low : Nat) : Char := Char.ofNat (0x10000 + (high - 0xD800) * 0x400 + (low - 0xDC00))

/-- A result with one more character in front. -/
def withChar (c : Char) (read : Except Stop (List Char × List Char)) :
    Except Stop (List Char × List Char) :=
  read.map fun (cs, rest) => (c :: cs, rest)

/-- The characters up to the closing quote. The first half of a surrogate pair needs the second one. -/
def stringBody : List Char → Except Stop (List Char × List Char)
  | [] => .error ⟨.endOfString, [], 0⟩
  | '"' :: rest => .ok ([], rest)
  | '\\' :: [] => .error ⟨.endOfString, [], 0⟩
  | '\\' :: 'u' :: a :: b :: c :: d :: rest =>
    match hex4 a b c d with
    | none => .error (noHex (a :: b :: c :: d :: rest))
    | some code =>
      if isLow code then .error ⟨.loneSurrogate, rest, 0⟩
      else if isHigh code then
        match rest with
        | '\\' :: 'u' :: e :: f :: g :: h :: rest =>
          match hex4 e f g h with
          | none => .error (noHex (e :: f :: g :: h :: rest))
          | some low =>
            if isLow low then withChar (paired code low) (stringBody rest)
            else .error ⟨.loneSurrogate, rest, 0⟩
        | '\\' :: 'u' :: rest => .error (noHex rest)
        | '\\' :: [] => .error ⟨.endOfString, [], 0⟩
        | '\\' :: rest => .error ⟨.brokenPair, rest, 1⟩
        | [] => .error ⟨.endOfString, [], 0⟩
        | rest => .error ⟨.brokenPair, rest, 1⟩
      else withChar (Char.ofNat code) (stringBody rest)
  | '\\' :: 'u' :: rest => .error (noHex rest)
  | '\\' :: c :: rest =>
    match shortEscape c with
    | some x => withChar x (stringBody rest)
    | none => .error ⟨.invalidEscape, c :: rest, 1⟩
  | c :: rest =>
    if c.toNat < 32 then .error ⟨.controlCharacter, c :: rest, 1⟩ else withChar c (stringBody rest)

def stringRest : Reader String := fun cs => (stringBody cs).map fun (s, rest) => (String.ofList s, rest)

/-! ## Values -/

/-- The name of a member and its colon, from the opening quote on. -/
def memberName : Reader String := do
  skip
  let name ← stringRest
  blanks
  match ← peek? with
  | some ':' => do skip; return name
  | some _ => stop .missingColon
  | none => stop .endOfObject

mutual

/-- A value between blanks, given how many levels may still open and a bound on the steps. -/
def value (levels : Nat) : Nat → Reader Json
  | 0 => stop .endOfValue
  | steps + 1 => do
    blanks
    match ← peek? with
    | none => stop .endOfValue
    | some '[' =>
      if levels = 0 then stop .tooDeep
      skip
      blanks
      match ← peek? with
      | none => stop .endOfList
      | some ']' => do skip; return array []
      | some _ => return array (← items (levels - 1) steps)
    | some '\x7b' =>
      if levels = 0 then stop .tooDeep
      skip
      blanks
      match ← peek? with
      | none => stop .endOfObject
      | some '\x7d' => do skip; return object []
      | some '"' => return object (← members (levels - 1) steps [])
      | some _ => stop .keyNotString
    | some '"' => do skip; return string (← stringRest)
    | some 't' => do skip; word "rue".toList; return bool true
    | some 'f' => do skip; word "alse".toList; return bool false
    | some 'n' => do skip; word "ull".toList; return null
    | some '-' => do skip; number true
    | some c => if c.isDigit then number false else stop .noValue

/-- One or more items up to the closing bracket. -/
def items (levels : Nat) : Nat → Reader (List Json)
  | 0 => stop .endOfValue
  | steps + 1 => do
    let item ← value levels steps
    blanks
    match ← peek? with
    | none => stop .endOfList
    | some ']' => do skip; return [item]
    | some ',' =>
      skip
      blanks
      match ← peek? with
      | none => stop .endOfValue
      | some ']' => stop .trailingComma
      | some _ => return item :: (← items levels steps)
    | some _ => stop .missingListEnd

/-- One or more members up to the closing brace, put in order after the ones read before. -/
def members (levels : Nat) : Nat → List (String × Json) → Reader (List (String × Json))
  | 0, _ => stop .endOfValue
  | steps + 1, before => do
    let name ← memberName
    let read := insertMember name (← value levels steps) before
    blanks
    match ← peek? with
    | none => stop .endOfObject
    | some '\x7d' => do skip; return read
    | some ',' =>
      skip
      blanks
      match ← peek? with
      | none => stop .endOfValue
      | some '"' => members levels steps read
      | some '\x7d' => stop .trailingComma
      | some _ => stop .keyNotString
    | some _ => stop .missingObjectEnd

end

/-- How many levels of lists and objects a text may have. -/
def maxLevels : Nat := 127

/-- A value and nothing else. A level takes a character and two steps, so the steps suffice. -/
def document (length : Nat) : Reader Json := do
  let result ← value maxLevels (2 * length + 2)
  blanks
  match ← peek? with
  | none => return result
  | some _ => stop .trailingCharacters

def read (text : String) : Except SyntaxError Json :=
  match document text.length text.toList with
  | .ok (result, _) => .ok result
  | .error s => .error (s.inText text.toList)

end KeyRules.Json
