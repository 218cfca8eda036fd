/-!
# Faults of JSON texts

A text that is no JSON has one fault, with the line and the column up to which the text was looked at. Lines
count from one; the column is a number of bytes.
-/

namespace KeyRules.Json

inductive Fault where
  | endOfList
  | endOfObject
  | endOfString
  | endOfValue
  | missingColon
  | missingListEnd
  | missingObjectEnd
  /-- A word that starts like `null`, `true` or `false`. -/
  | unknownWord
  | noValue
  | invalidEscape
  | invalidNumber
  | outOfRange
  | controlCharacter
  | keyNotString
  /-- Half of a surrogate pair. -/
  | loneSurrogate
  /-- No escape follows the first half of a surrogate pair. -/
  | brokenPair
  | trailingComma
  | trailingCharacters
  | tooDeep
  deriving DecidableEq, Repr

def Fault.text : Fault → String
  | endOfList => "EOF while parsing a list"
  | endOfObject => "EOF while parsing an object"
  | endOfString => "EOF while parsing a string"
  | endOfValue => "EOF while parsing a value"
  | missingColon => "expected \x60:\x60"
  | missingListEnd => "expected \x60,\x60 or \x60]\x60"
  | missingObjectEnd => "expected \x60,\x60 or \x60\x7d\x60"
  | unknownWord => "expected ident"
  | noValue => "expected value"
  | invalidEscape => "invalid escape"
  | invalidNumber => "invalid number"
  | outOfRange => "number out of range"
  | controlCharacter => "control character (\\u0000-\\u001F) found while parsing a string"
  | keyNotString => "key must be a string"
  | loneSurrogate => "lone leading surrogate in hex escape"
  | brokenPair => "unexpected end of hex escape"
  | trailingComma => "trailing comma"
  | trailingCharacters => "trailing characters"
  | tooDeep => "recursion limit exceeded"

/-- Why and where a text is no JSON. -/
structure SyntaxError where
  fault : Fault
  line : Nat
  column : Nat
  deriving DecidableEq, Repr

def SyntaxError.message (e : SyntaxError) : String :=
  e.fault.text ++ " at line " ++ toString e.line ++ " column " ++ toString e.column

/-- Where reading stopped: so many bytes ahead of the characters that were unread. -/
structure Stop where
  fault : Fault
  unread : List Char
  ahead : Nat
  deriving DecidableEq, Repr

def byteCount (cs : List Char) : Nat := cs.foldl (fun n c => n + c.utf8Size) 0

/-- The line and the column so many bytes into a text that starts at `line` and `column`. -/
def placeAfter (line column : Nat) : Nat → List Char → Nat × Nat
  | 0, _ => (line, column)
  | _, [] => (line, column)
  | count, c :: cs =>
    if c = '\n' then placeAfter (line + 1) 0 (count - 1) cs
    else if count ≤ c.utf8Size then (line, column + count)
    else placeAfter line (column + c.utf8Size) (count - c.utf8Size) cs

/-- The error of a text whose reading stopped. Nothing is looked at beyond the end. -/
def Stop.inText (s : Stop) (text : List Char) : SyntaxError :=
  let looked := min (byteCount text) (byteCount text - byteCount s.unread + s.ahead)
  let (line, column) := placeAfter 1 0 looked text
  ⟨s.fault, line, column⟩

/-- Reads a value off the front of the characters or stops. -/
abbrev Reader := StateT (List Char) (Except Stop)

namespace Reader

/-- Stops after a look at the next byte. -/
def stop (fault : Fault) : Reader α := fun cs => .error ⟨fault, cs, 1⟩

/-- Stops before the next byte. -/
def stopBefore (fault : Fault) : Reader α := fun cs => .error ⟨fault, cs, 0⟩

/-- The next character, which stays unread. -/
def peek? : Reader (Option Char) := fun cs => .ok (cs.head?, cs)

/-- Takes the next character away. -/
def skip : Reader Unit := fun cs => .ok ((), cs.tail)

/-- Reads the longest run of a class, which may be empty. -/
def run (p : Char → Bool) : Reader (List Char) := fun cs => .ok (cs.takeWhile p, cs.dropWhile p)

/-- Skips the four characters that may stand between tokens. -/
def blanks : Reader Unit := do
  let _ ← run fun c => c = ' ' || c = '\n' || c = '\r' || c = '\t'

/-- Reads a word that is known by its first character. -/
def word : List Char → Reader Unit
  | [] => pure ()
  | expected :: rest => do
    match ← peek? with
    | none => stop .endOfValue
    | some c => if c = expected then do skip; word rest else stop .unknownWord

end Reader

end KeyRules.Json
