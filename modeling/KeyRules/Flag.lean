import KeyRules.Error
import KeyRules.Text.Blank

/-!
# Flags and gates

A flag is a named boolean that one fragment writes and others read. A gate asks for one value of a flag.
-/

namespace KeyRules

structure Flag where
  name : String
  deriving DecidableEq, Repr

namespace Flag

/-- White space around the name does not count; an empty name is refused. -/
def parse (s : String) : Except RuleError Flag :=
  let name := Text.trim s
  if name.isEmpty then .error .emptyFlagName else .ok ⟨name⟩

/-- Puts a flag among flags sorted by name, once. -/
def insert (f : Flag) : List Flag → List Flag
  | [] => [f]
  | g :: gs =>
    if f.name < g.name then f :: g :: gs
    else if f = g then g :: gs
    else g :: insert f gs

/-- The flags sorted by name, each once. -/
def sorted (fs : List Flag) : List Flag := fs.foldr insert []

end Flag

/-- The condition that a flag has a value. -/
structure Gate where
  flag : Flag
  isSet : Bool
  deriving DecidableEq, Repr

namespace Gate

def whenSet (f : Flag) : Gate := ⟨f, true⟩

def whenClear (f : Flag) : Gate := ⟨f, false⟩

/-- The flag has the value that the gate asks for, given the flags that are set. -/
def isOpen (set : List Flag) (g : Gate) : Bool := decide (g.flag ∈ set) == g.isSet

end Gate

end KeyRules
