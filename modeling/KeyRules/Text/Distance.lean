import KeyRules.Text.Case

/-!
# Close spellings

`distance` is the least number of insertions, deletions and substitutions of characters that make one
text out of another, computed row by row. `suggest` picks the entries of a vocabulary that an unknown
spelling may have meant, `closest` those next to any text.
-/

namespace KeyRules.Text

/-- The rest of a row after an entry `left`. The row above starts with the entry diagonal to the next
one. -/
def extendRow (a : Char) : Nat → List Char → List Nat → List Nat
  | left, b :: bs, diagonal :: above :: row =>
    let entry := min (min (diagonal + if a = b then 0 else 1) (above + 1)) (left + 1)
    entry :: extendRow a entry bs (above :: row)
  | _, _, _ => []

/-- The row of distances to every front part of `bs`, after one more character of the other text. -/
def nextRow (bs : List Char) (row : List Nat) (a : Char) : List Nat :=
  (row.headD 0 + 1) :: extendRow a (row.headD 0 + 1) bs row

def distance (s t : String) : Nat :=
  (s.toList.foldl (nextRow t.toList) (List.range (t.toList.length + 1))).getLastD 0

/-- One text starts with the other, and the shorter one has at least two bytes. -/
def sharesStart (needle candidate : String) : Bool :=
  2 ≤ needle.utf8ByteSize
    && (needle.toList.isPrefixOf candidate.toList
      || (2 ≤ candidate.utf8ByteSize && candidate.toList.isPrefixOf needle.toList))

/-- The order of suggestions: nearest first, then by place in the vocabulary. -/
def nearer (x y : Nat × Nat × String) : Bool := x.1 < y.1 || (x.1 == y.1 && x.2.1 ≤ y.2.1)

/-- The entries within distance two of a text or sharing its start, nearest first, at most five. -/
def closest (needle : String) (vocabulary : List String) : List String :=
  if needle.isEmpty then []
  else
    let scored := vocabulary.zipIdx.filterMap fun (candidate, place) =>
      let gap := distance needle candidate
      if gap ≤ 2 || sharesStart needle candidate then some (gap, place, candidate) else none
    ((scored.mergeSort nearer).take 5).map (·.2.2)

/-- The entries closest to a spelling in lower case. -/
def suggest (input : String) (vocabulary : List String) : List String := closest (lower input) vocabulary

end KeyRules.Text
