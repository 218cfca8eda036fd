import KeyRules.Decimal.Binary64

/-!
# JSON values

Whole numbers of the signed and unsigned 64-bit ranges stay exact; every other number is a double.
Object members keep an order. A value read from a text is in canonical form: members are sorted by
name and the last of several members of one name counts.
-/

namespace KeyRules

open Decimal (Binary64)

inductive Json where
  | null
  | bool (value : Bool)
  | int (value : Int)
  | real (value : Binary64)
  | string (value : String)
  | array (items : List Json)
  | object (members : List (String × Json))
  deriving Repr, Inhabited

namespace Json

/-- Puts a member among members sorted by name, replacing one of the same name. -/
def insertMember (name : String) (value : Json) : List (String × Json) → List (String × Json)
  | [] => [(name, value)]
  | (other, old) :: rest =>
    if name < other then (name, value) :: (other, old) :: rest
    else if name = other then (name, value) :: rest
    else (other, old) :: insertMember name value rest

def replaceMember (name : String) (value : Json) : List (String × Json) → List (String × Json)
  | [] => []
  | (other, old) :: rest =>
    if other = name then (name, value) :: rest else (other, old) :: replaceMember name value rest

def member? (name : String) : List (String × Json) → Option Json
  | [] => none
  | (other, value) :: rest => if other = name then some value else member? name rest

/-- Gives a name a value: in its place if there is such a member, else in order. -/
def setMember (name : String) (value : Json) (members : List (String × Json)) :
    List (String × Json) :=
  if (member? name members).isSome then replaceMember name value members
  else insertMember name value members

/-- The member of an object, `none` for any other value. -/
def get? (name : String) : Json → Option Json
  | object members => member? name members
  | _ => none

def string? : Json → Option String
  | string value => some value
  | _ => none

def array? : Json → Option (List Json)
  | array items => some items
  | _ => none

mutual

/-- Sorts the members of every object by name; of one name the last member counts. -/
def canonical : Json → Json
  | array items => array (canonicalItems items)
  | object members => object (canonicalMembers members)
  | other => other

def canonicalItems : List Json → List Json
  | [] => []
  | item :: rest => canonical item :: canonicalItems rest

def canonicalMembers : List (String × Json) → List (String × Json)
  | [] => []
  | (name, value) :: rest =>
    let sorted := canonicalMembers rest
    if (member? name sorted).isSome then sorted else insertMember name (canonical value) sorted

end

end Json

end KeyRules
