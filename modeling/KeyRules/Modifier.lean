import KeyRules.Key.Basic

/-!
# Modifiers

The modifiers an event engine understands: each physical one, the side-less ones that stand for either
side, and `any`. Two aliases name fixed sets of them.
-/

namespace KeyRules

inductive Modifier where
  | command | leftCommand | rightCommand
  | control | leftControl | rightControl
  | option | leftOption | rightOption
  | shift | leftShift | rightShift
  | fn | capsLock | any
  deriving DecidableEq, Repr

namespace Modifier

def name : Modifier → String
  | command => "command"
  | leftCommand => "left_command"
  | rightCommand => "right_command"
  | control => "control"
  | leftControl => "left_control"
  | rightControl => "right_control"
  | option => "option"
  | leftOption => "left_option"
  | rightOption => "right_option"
  | shift => "shift"
  | leftShift => "left_shift"
  | rightShift => "right_shift"
  | fn => "fn"
  | capsLock => "caps_lock"
  | any => "any"

def all : List Modifier := [
  command, leftCommand, rightCommand, control, leftControl, rightControl,
  option, leftOption, rightOption, shift, leftShift, rightShift, fn, capsLock, any]

def names : List String := all.map name

def ofName? (s : String) : Option Modifier := all.find? (·.name = s)

/-- Names one physical key. -/
def isSpecific : Modifier → Bool
  | command | control | option | shift | any => false
  | _ => true

/-- The key that produces a modifier; a side-less modifier uses the left key. -/
def key? (m : Modifier) : Option Key :=
  Key.ofSpelling? m.name <|> Key.ofSpelling? ("left_" ++ m.name)

/-- Adds a modifier behind the others unless it is among them. -/
def addNew (ms : List Modifier) (m : Modifier) : List Modifier := if m ∈ ms then ms else ms ++ [m]

/-- The modifiers without repeats, in the order of their first occurrence. -/
def distinct (ms : List Modifier) : List Modifier := ms.foldl addNew []

end Modifier

/-- The modifier a key acts as. -/
def Key.modifier? (k : Key) : Option Modifier := Modifier.ofName? k.name

def Key.isModifier (k : Key) : Bool := k.modifier?.isSome

inductive ModifierAlias where
  | hyper
  | meh
  deriving DecidableEq, Repr

namespace ModifierAlias

def name : ModifierAlias → String
  | hyper => "hyper"
  | meh => "meh"

def all : List ModifierAlias := [hyper, meh]

/-- The alias of a name in any ASCII letter case. -/
def ofName? (s : String) : Option ModifierAlias := all.find? (·.name = Text.lowerAscii s)

/-- The modifiers of an alias, the first of which carries the others. -/
def expand : ModifierAlias → List Modifier
  | hyper => [.leftCommand, .leftControl, .leftOption, .leftShift]
  | meh => [.leftControl, .leftOption, .leftShift]

end ModifierAlias

end KeyRules
