import KeyRules.Action

/-!
# Manipulators

A manipulator is one low-level rule: the keys that trigger it, the gates it waits for, and the events it
sends at each stage of a press. Times are whole milliseconds of 32 bits.
-/

namespace KeyRules

/-- Milliseconds of a rule's timing. -/
abbrev Millis := UInt32

/-- The order in which keys pressed together must go down. -/
inductive KeyOrder where
  | anyOrder
  | listed
  deriving DecidableEq, Repr

/-- The physical input a manipulator reacts to. `acceptsAny` lets any modifiers be held. -/
inductive Trigger where
  | single (key : Key) (acceptsAny : Bool)
  | together (keys : List Key) (order : KeyOrder) (window : Millis)
  deriving DecidableEq, Repr

namespace Trigger

/-- A single key with any modifiers held. -/
def ofKey (k : Key) : Trigger := single k true

def keys : Trigger → List Key
  | single k _ => [k]
  | together ks _ _ => ks

/-- The time within which keys pressed together must go down. -/
def window? : Trigger → Option Millis
  | single _ _ => none
  | together _ _ w => some w

def isTogether : Trigger → Bool
  | single _ _ => false
  | together _ _ _ => true

/-- A key that can be the first of a simultaneous trigger to go down. -/
def opensWith (k : Key) : Trigger → Bool
  | single _ _ => false
  | together ks .anyOrder _ => ks.contains k
  | together ks .listed _ => ks.head? == some k

/-- Keys that went down in this order can still complete a simultaneous trigger. -/
def accepts (pressed : List Key) : Trigger → Bool
  | single _ _ => false
  | together ks .anyOrder _ => decide (pressed.length ≤ ks.length) && pressed.all ks.contains
  | together ks .listed _ => pressed.isPrefixOf ks

def joinKeys (ks : List Key) : String := "+".intercalate (ks.map Key.name)

def text (t : Trigger) : String := joinKeys t.keys

end Trigger

/-- Events that wait for a countdown. It starts when the trigger is released; another key that goes
down first cancels it. -/
structure Delayed where
  delay : Millis
  onInvoked : List Event
  onCanceled : List Event
  deriving DecidableEq, Repr

structure Manipulator where
  trigger : Trigger
  gates : List Gate := []
  /-- Sent on key down. -/
  onPress : List Event := []
  /-- Sent on an early release of an undisturbed press. -/
  onTap : List Event := []
  /-- Sent once the press has lasted for `holdThreshold`. -/
  onHold : List Event := []
  /-- Sent on release. -/
  onRelease : List Event := []
  delayed : Option Delayed := none
  /-- How long a press counts as a tap. -/
  tapLimit : Option Millis := none
  holdThreshold : Option Millis := none
  deriving DecidableEq, Repr

namespace Manipulator

/-- Every event the manipulator can send, in a fixed order. -/
def events (m : Manipulator) : List Event :=
  m.onPress ++ m.onTap ++ m.onHold ++ m.onRelease
    ++ (match m.delayed with
      | some d => d.onInvoked ++ d.onCanceled
      | none => [])

def gateFlags (m : Manipulator) : List Flag := m.gates.map (·.flag)

end Manipulator

end KeyRules
