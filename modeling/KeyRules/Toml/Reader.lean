import KeyRules.Toml.Numbers
import KeyRules.Toml.Strings
import KeyRules.Toml.Table

/-!
# Reading TOML

A document is a list of lines: blank lines, comments, table headers and pairs of a key and a value. Values
nest at most 79 levels deep, and a dotted key has at most 79 parts.
-/

namespace KeyRules.Toml

namespace Scan

open Text Text.Scanner

/-- How many levels values may have, and how many parts a key. -/
def maxLevels : Nat := 79

def spaces : Scanner Unit := do
  let _ ← run isSpace

def newline : Scanner Unit := fun cs => (newline? cs).map ((), ·)

def comment : Scanner Unit := do
  char '#'
  let _ ← run isText

/-- The rest of a line that has nothing more to say. -/
def lineEnd : Scanner Unit := do
  spaces
  let _ ← optional comment
  newline <|> atEnd

/-- Blanks, line breaks and comments between the items of a list. -/
def gap (steps : Nat) : Scanner Unit := do
  let _ ← many steps (newline <|> (do let _ ← run1 isSpace) <|> (do comment; newline))

/-- A letter, a digit, an underscore or a hyphen. -/
def isBareKey (c : Char) : Bool := c.isAlphanum || c = '_' || c = '-'

/-- One part of a key, with blanks around it. -/
def keyPart : Scanner String := do
  spaces
  let part ← lineString <|> (do return String.ofList (← run1 isBareKey))
  spaces
  return part

/-- A dotted key: the path to its table and the last part. -/
def key (steps : Nat) : Scanner (List String × String) := do
  let parts ← separated steps (char '.') keyPart
  match parts.getLast? with
  | some last => if parts.length ≤ maxLevels then return (parts.dropLast, last) else failure
  | none => failure

/-- Values that need no recursion. -/
def scalar : Scanner Toml :=
  (do return .string (← string))
    <|> (do exact "true".toList; return .boolean true)
    <|> (do exact "false".toList; return .boolean false)
    <|> (do datetime; return .datetime)
    <|> (do return .float (← float))
    <|> (do return .integer (← integer))

mutual

/-- A value, given how many levels may still open and a bound on the steps. -/
def value (levels : Nat) : Nat → Scanner Toml
  | 0 => failure
  | steps + 1 => do
    match ← peek? with
    | some '[' =>
      if levels = 0 then failure
      let _ ← next
      gap steps
      if ← accept ']' then return .array [] else return .array (← items (levels - 1) steps)
    | some '\x7b' =>
      if levels = 0 then failure
      let _ ← next
      spaces
      if ← accept '\x7d' then return .table [] else
        return .table (finishEntries (← pairs (levels - 1) steps []))
    | _ => scalar

/-- The items of a list up to its closing bracket. A comma may follow the last one. -/
def items (levels : Nat) : Nat → Scanner (List Toml)
  | 0 => failure
  | steps + 1 => do
    gap steps
    let item ← value levels steps
    gap steps
    if ← accept ']' then return [item]
    char ','
    gap steps
    if ← accept ']' then return [item]
    return item :: (← items levels steps)

/-- The pairs of an inline table up to its closing brace, added to those read before. -/
def pairs (levels : Nat) : Nat → Entries → Scanner Entries
  | 0, _ => failure
  | steps + 1, before => do
    let (path, last) ← key steps
    char '='
    spaces
    let v ← value levels steps
    spaces
    let read ← (addPair path last v before : Option Entries)
    if ← accept '\x7d' then return read
    char ','
    pairs levels steps read

end

/-- A table header. -/
def header (steps : Nat) (d : Draft) : Scanner Draft := do
  if ← accept '[' then
    if ← accept '[' then
      let (path, last) ← key steps
      exact [']', ']']
      lineEnd
      (d.openItem (path ++ [last]) : Option Draft)
    else
      let (path, last) ← key steps
      char ']'
      lineEnd
      (d.openTable (path ++ [last]) : Option Draft)
  else failure

/-- A pair on a line of its own. -/
def pair (steps : Nat) (d : Draft) : Scanner Draft := do
  let (path, last) ← key steps
  char '='
  spaces
  let v ← value maxLevels steps
  lineEnd
  (d.add path last v : Option Draft)

/-- The lines of a document, at most `count` of them. -/
def lines (steps : Nat) : Nat → Draft → Scanner Draft
  | 0, d => pure d
  | count + 1, d => do
    spaces
    match ← peek? with
    | none => return d
    | some '[' => lines steps count (← header steps d)
    | some '#' => do lineEnd; lines steps count d
    | some '\n' => do newline; lines steps count d
    | some '\r' => do newline; lines steps count d
    | some _ => lines steps count (← pair steps d)

end Scan

open Text.Scanner in
/-- The table of a document. A byte-order mark in front does not count. -/
def read? (text : String) : Option (List (String × Toml)) :=
  let steps := text.length + 1
  all (do
    let _ ← accept '\uFEFF'
    let d ← Scan.lines steps steps {}
    return finishEntries (← (d.close : Option Entries))) text

end KeyRules.Toml
