import KeyRules.Fragment
import KeyRules.Log

/-!
# Tap-hold keys

One key taps one action and holds another. Tap-first assumes a tap, and the hold action wins once the
countdown has run out. Hold-first sends the hold action right away, and an early release of an
undisturbed press adds the tap.
-/

namespace KeyRules

/-- A time of a rule: more than zero milliseconds and at most 32 bits. -/
def TimeSetting.check (setting : TimeSetting) (value : Int) : Except RuleError Millis :=
  if 0 < value ∧ value < UInt32.size then .ok (UInt32.ofNat value.toNat)
  else .error (.invalidTime setting value)

/-- The outcome that a press assumes while the countdown runs. -/
inductive Priority where
  | tapFirst
  | holdFirst
  deriving DecidableEq, Repr

namespace Priority

def name : Priority → String
  | tapFirst => "tap-first"
  | holdFirst => "hold-first"

def all : List Priority := [tapFirst, holdFirst]

def ofName? (s : String) : Option Priority := all.find? (·.name = s)

end Priority

structure TapHold where
  key : Key
  tap : Action
  hold : Action
  timeout : Int
  priority : Priority
  /-- Set while the hold action is in effect. -/
  flag : Option Flag := none
  /-- Must be set for the key to act as tap-hold. -/
  gate : Option Flag := none
  deriving DecidableEq, Repr

namespace TapHold

def text (b : TapHold) : String :=
  b.key.name ++ ": tap " ++ b.tap.text ++ ", hold " ++ b.hold.text
    ++ " (" ++ b.priority.name ++ ", " ++ toString b.timeout ++ "ms)"

/-- The events with the first one halting. -/
def haltFirst : List Event → List Event
  | [] => []
  | e :: es => e.halted :: es

def writeFlag (flag : Option Flag) (value : Bool) : List Event :=
  (flag.map fun f => Event.setFlag f value).toList

def gatesOn (flag : Option Flag) : List Gate := (flag.map Gate.whenSet).toList

/-- A halting tap or hold settles the press, so the delayed tap goes out only for a press that another
key disturbed. -/
def tapFirst (b : TapHold) (timeout : Millis) : Manipulator where
  trigger := .ofKey b.key
  gates := gatesOn b.gate
  onTap := haltFirst b.tap.events
  onHold := haltFirst b.hold.lazyEvents ++ writeFlag b.flag true
  onRelease := writeFlag b.flag false
  delayed := some ⟨timeout, b.tap.events, b.tap.events⟩
  tapLimit := some timeout
  holdThreshold := some timeout

def holdFirst (b : TapHold) (timeout : Millis) : Manipulator where
  trigger := .ofKey b.key
  gates := gatesOn b.gate
  onPress := b.hold.lazyEvents ++ writeFlag b.flag true
  onTap := b.tap.events
  onRelease := writeFlag b.flag false
  tapLimit := some timeout

def manipulator (b : TapHold) (timeout : Millis) : Manipulator :=
  match b.priority with
  | .tapFirst => b.tapFirst timeout
  | .holdFirst => b.holdFirst timeout

def compile (b : TapHold) : Except RuleError Fragment := do
  let timeout ← TimeSetting.timeout.check b.timeout
  if b.tap.isPaste then throw (.pasteNotAllowed .tap)
  if b.hold.isPaste then throw (.pasteNotAllowed .hold)
  return ⟨"tap-hold " ++ b.text, [b.manipulator timeout], b.flag⟩

/-- Holds a modifier, so that the hold action has no effect of its own. -/
def holdsModifier (b : TapHold) : Bool := b.hold.primaryKey?.any Key.isModifier

def reports (b : TapHold) : List Message :=
  if failed b.compile then []
  else
    (if b.priority = .holdFirst ∧ !b.holdsModifier then
      [⟨.warn, "hold-first binding on '" ++ b.key.name ++ "' holds '" ++ b.hold.text
        ++ "', which is not a modifier; it is sent on every press"⟩]
    else [])
      ++ [⟨.debug, "compiled tap-hold " ++ b.text⟩]

end TapHold

end KeyRules
