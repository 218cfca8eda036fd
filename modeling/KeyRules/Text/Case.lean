import KeyRules.Text.Casing

/-!
# Lower case

A text is put in lower case letter by letter. The dotted capital I becomes two characters, and a capital
sigma that ends a word becomes the final one.
-/

namespace KeyRules.Text

def smallLetter (c : Char) : Char :=
  match Casing.capitals.findSome? fun part => part.findSome? (·.small? c.toNat) with
  | some n => Char.ofNat n
  | none => c

def lowerChar (c : Char) : List Char :=
  if c.toNat < 128 then [c.toLower]
  else if c = '\u0130' then ['i', '\u0307']
  else [smallLetter c]

def isCased (c : Char) : Bool := isWithin Casing.cased c.toNat

def isCaseIgnorable (c : Char) : Bool := isWithin Casing.ignorable c.toNat

/-- The first character that counts is a letter with a case. -/
def startsCased (cs : List Char) : Bool := (cs.dropWhile isCaseIgnorable).head?.any isCased

/-- The small form of a sigma. It ends a word if a letter stands before it, and none after it. -/
def smallSigma (before after : List Char) : Char :=
  if startsCased before && !startsCased after then 'ς' else 'σ'

/-- The lower case of a text. What stands before it comes last character first. -/
def lowerAfter (before : List Char) : List Char → List Char
  | [] => []
  | c :: after =>
    (if c = 'Σ' then [smallSigma before after] else lowerChar c) ++ lowerAfter (c :: before) after

def lower (s : String) : String := String.ofList (lowerAfter [] s.toList)

def lowerAscii (s : String) : String := String.ofList (s.toList.map Char.toLower)

end KeyRules.Text
