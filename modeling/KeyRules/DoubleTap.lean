import KeyRules.TapHold

/-!
# Double taps

A second press of a key within an interval fires an action of its own. The first press sets a flag and
waits; when no second press comes it falls back to the single-tap action.
-/

namespace KeyRules

structure DoubleTap where
  key : Key
  interval : Int
  action : Action
  /-- Sent for an isolated press, the key itself by default. -/
  singleTap : Option Action := none
  /-- Marks that the first tap was seen, `double_tap_<key>` by default. -/
  flag : Option Flag := none
  deriving DecidableEq, Repr

namespace DoubleTap

def text (d : DoubleTap) : String :=
  d.key.name ++ " x2 -> " ++ d.action.text ++ " (" ++ toString d.interval ++ "ms)"

/-- The flag in use. A key name is never empty, so neither is the default. -/
def flagInUse (d : DoubleTap) : Flag := d.flag.getD ⟨"double_tap_" ++ d.key.name⟩

def singleTapInUse (d : DoubleTap) : Action := d.singleTap.getD (.key d.key [])

/-- A press while the first tap is remembered. -/
def second (d : DoubleTap) : Manipulator where
  trigger := .ofKey d.key
  gates := [.whenSet d.flagInUse]
  onPress := .setFlag d.flagInUse false :: d.action.events

/-- What an isolated press sends in the end. -/
def fallback (d : DoubleTap) : List Event := .setFlag d.flagInUse false :: d.singleTapInUse.events

/-- A press with no tap remembered. -/
def first (d : DoubleTap) (interval : Millis) : Manipulator where
  trigger := .ofKey d.key
  gates := [.whenClear d.flagInUse]
  onPress := [.setFlag d.flagInUse true]
  delayed := some ⟨interval, d.fallback, d.fallback⟩

def compile (d : DoubleTap) : Except RuleError Fragment := do
  let interval ← TimeSetting.interval.check d.interval
  return ⟨"double-tap " ++ d.text, [d.second, d.first interval], some d.flagInUse⟩

def reports (d : DoubleTap) : List Message :=
  if failed d.compile then [] else [⟨.debug, "compiled double-tap " ++ d.text⟩]

end DoubleTap

end KeyRules
