import KeyRules.Text.Scanner

/-!
# TOML strings

Basic strings have escapes, literal strings have none, and both have a form of several lines. A line break
right after the opening quotes does not count, and a line break is always one line feed.
-/

namespace KeyRules.Toml.Scan

open Text Text.Scanner

/-- A character that may stand in a line: the tab and all but the controls. -/
def isText (c : Char) : Bool := c = '\t' || (0x20 ≤ c.toNat && c.toNat ≠ 0x7F)

def isSpace (c : Char) : Bool := c = ' ' || c = '\t'

/-- The line break that comes next, taken off. -/
def newline? : List Char → Option (List Char)
  | '\n' :: rest => some rest
  | '\r' :: '\n' :: rest => some rest
  | _ => none

/-- Drops a line break right after the opening quotes. -/
def dropNewline (cs : List Char) : List Char := (newline? cs).getD cs

/-- The character of an escape of one letter. -/
def shortEscape : Char → Option Char
  | 'b' => some '\x08'
  | 't' => some '\t'
  | 'n' => some '\n'
  | 'f' => some '\x0c'
  | 'r' => some '\r'
  | '"' => some '"'
  | '\\' => some '\\'
  | _ => none

/-- The character of an escape by code point. -/
def codeEscape (digits : List Char) : Option Char :=
  if digits.all isHexDigit then charOfCode? (digitsValue 16 digits) else none

/-- A result with one more character in front. -/
def withChar (c : Option Char) (read : Option (List Char × List Char)) :
    Option (List Char × List Char) := do
  let c ← c
  let (cs, rest) ← read
  return (c :: cs, rest)

/-- A basic string after its opening quote. -/
def basicBody : List Char → Option (List Char × List Char)
  | [] => none
  | '"' :: rest => some ([], rest)
  | '\\' :: 'u' :: a :: b :: c :: d :: rest => withChar (codeEscape [a, b, c, d]) (basicBody rest)
  | '\\' :: 'U' :: a :: b :: c :: d :: e :: f :: g :: h :: rest =>
    withChar (codeEscape [a, b, c, d, e, f, g, h]) (basicBody rest)
  | '\\' :: c :: rest => withChar (shortEscape c) (basicBody rest)
  | c :: rest => if isText c ∧ c ≠ '\\' then withChar (some c) (basicBody rest) else none

def literalBody : List Char → Option (List Char × List Char)
  | [] => none
  | '\'' :: rest => some ([], rest)
  | c :: rest => if isText c then withChar (some c) (literalBody rest) else none

/-- After three closing quotes, up to two more belong to the string. -/
def extraQuotes (quote : Char) (rest : List Char) : List Char × List Char :=
  let extra := (rest.take 2).takeWhile (· == quote)
  (extra, rest.drop extra.length)

/-- A backslash is followed by blanks and a line break. -/
def endsLine (cs : List Char) : Bool := (newline? (cs.dropWhile isSpace)).isSome

/-- A basic string of several lines after its opening quotes. While `skipping`, after a backslash at the
end of a line, blanks and line breaks do not count. -/
def basicLines (skipping : Bool) : List Char → Option (List Char × List Char)
  | [] => none
  | '"' :: '"' :: '"' :: rest => some (extraQuotes '"' rest)
  | '\\' :: 'u' :: a :: b :: c :: d :: rest =>
    withChar (codeEscape [a, b, c, d]) (basicLines false rest)
  | '\\' :: 'U' :: a :: b :: c :: d :: e :: f :: g :: h :: rest =>
    withChar (codeEscape [a, b, c, d, e, f, g, h]) (basicLines false rest)
  | '\\' :: c :: rest =>
    if endsLine (c :: rest) then basicLines true (c :: rest)
    else withChar (shortEscape c) (basicLines false rest)
  | '\r' :: '\n' :: rest =>
    if skipping then basicLines true rest else withChar (some '\n') (basicLines false rest)
  | c :: rest =>
    if skipping ∧ (isSpace c ∨ c = '\n') then basicLines true rest
    else if (isText c ∧ c ≠ '\\') ∨ c = '\n' then withChar (some c) (basicLines false rest)
    else none

/-- A literal string of several lines after its opening quotes. -/
def literalLines : List Char → Option (List Char × List Char)
  | [] => none
  | '\'' :: '\'' :: '\'' :: rest => some (extraQuotes '\'' rest)
  | '\r' :: '\n' :: rest => withChar (some '\n') (literalLines rest)
  | c :: rest => if isText c ∨ c = '\n' then withChar (some c) (literalLines rest) else none

def lineString : Scanner String := fun cs =>
  (match cs with
    | '"' :: rest => basicBody rest
    | '\'' :: rest => literalBody rest
    | _ => none).map fun (s, rest) => (String.ofList s, rest)

/-- A string of any of the four forms. -/
def string : Scanner String := fun cs =>
  match cs with
  | '"' :: '"' :: '"' :: rest =>
    (basicLines false (dropNewline rest)).map fun (s, rest) => (String.ofList s, rest)
  | '\'' :: '\'' :: '\'' :: rest =>
    (literalLines (dropNewline rest)).map fun (s, rest) => (String.ofList s, rest)
  | _ => lineString cs

end KeyRules.Toml.Scan
