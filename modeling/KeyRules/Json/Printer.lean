import KeyRules.Json.Value

/-!
# Printing JSON

The pretty form indents by two spaces and writes an empty list or object without a line break.
Quotes, backslashes and control characters are escaped, all else stands as it is. Doubles have the
shortest text that reads back.
-/

namespace KeyRules.Json

open Decimal (Binary64)

def hexDigit (n : Nat) : Char := Nat.digitChar n

/-- One character inside a string literal. -/
def escapeChar (c : Char) : List Char :=
  if c = '"' then ['\\', '"']
  else if c = '\\' then ['\\', '\\']
  else if c = '\x08' then ['\\', 'b']
  else if c = '\x0c' then ['\\', 'f']
  else if c = '\n' then ['\\', 'n']
  else if c = '\r' then ['\\', 'r']
  else if c = '\t' then ['\\', 't']
  else if c.toNat < 32 then ['\\', 'u', '0', '0', hexDigit (c.toNat / 16), hexDigit (c.toNat % 16)]
  else [c]

def quote (s : String) : String := "\"" ++ String.ofList (s.toList.flatMap escapeChar) ++ "\""

/-- Doubles are plain from `0.00001` up to below `10 ^ 16`. -/
def realStyle : Binary64.Style where
  half := .toEven
  isPlain place := -5 ≤ place && place ≤ 15
  plus := "+"

def realText (x : Binary64) : String := x.text realStyle

/-- A line break and the indentation of a depth. -/
def newline (depth : Nat) : String := "\n" ++ String.ofList (List.replicate (2 * depth) ' ')

mutual

/-- The pretty text of a value that stands at a depth. -/
def prettyAt (depth : Nat) : Json → String
  | null => "null"
  | bool true => "true"
  | bool false => "false"
  | int n => toString n
  | real x => realText x
  | string s => quote s
  | array [] => "[]"
  | array (item :: rest) =>
    "[" ++ newline (depth + 1) ++ prettyAt (depth + 1) item ++ prettyItems (depth + 1) rest
      ++ newline depth ++ "]"
  | object [] => "\x7b\x7d"
  | object ((name, value) :: rest) =>
    "\x7b" ++ newline (depth + 1) ++ quote name ++ ": " ++ prettyAt (depth + 1) value
      ++ prettyMembers (depth + 1) rest ++ newline depth ++ "\x7d"

def prettyItems (depth : Nat) : List Json → String
  | [] => ""
  | item :: rest => "," ++ newline depth ++ prettyAt depth item ++ prettyItems depth rest

def prettyMembers (depth : Nat) : List (String × Json) → String
  | [] => ""
  | (name, value) :: rest =>
    "," ++ newline depth ++ quote name ++ ": " ++ prettyAt depth value ++ prettyMembers depth rest

end

def pretty (value : Json) : String := prettyAt 0 value

end KeyRules.Json
