import KeyRules.Manipulator

/-!
# Fragments

A fragment is the compiled form of one rule: manipulators under one description, and the flag it owns.
Other fragments may read that flag through gates.
-/

namespace KeyRules

structure Fragment where
  description : String
  manipulators : List Manipulator
  ownedFlag : Option Flag
  deriving DecidableEq, Repr

structure Summary where
  description : String
  trigger : Trigger
  onTap : List Event
  onHold : List Event
  onTimeout : List Event
  window : Option Millis
  gatingFlag : Option Flag
  deriving DecidableEq, Repr

namespace Fragment

/-- The flags that any event writes, sorted, each once. -/
def writes (f : Fragment) : List Flag :=
  Flag.sorted ((f.manipulators.flatMap Manipulator.events).filterMap Event.flag?)

/-- The flags that gates test and the fragment does not own, sorted, each once. -/
def reads (f : Fragment) : List Flag :=
  Flag.sorted ((f.manipulators.flatMap Manipulator.gateFlags).filter fun g => f.ownedFlag != some g)

/-- A manipulator that waits for the fragment's own flag. -/
def isFollowUp (f : Fragment) (m : Manipulator) : Bool :=
  m.gates.any fun g => f.ownedFlag == some g.flag

/-- The first manipulator that does not wait for the own flag, else the first one. -/
def entry? (f : Fragment) : Option Manipulator :=
  (f.manipulators.find? fun m => !f.isFollowUp m) <|> f.manipulators.head?

/-- The time that decides about an entry: its window, else the hold threshold, the tap limit or the
delay. -/
def entryWindow (m : Manipulator) : Option Millis :=
  m.trigger.window? <|> m.holdThreshold <|> m.tapLimit <|> m.delayed.map (·.delay)

/-- The entry at a glance, `none` for a fragment without manipulators. -/
def summary? (f : Fragment) : Option Summary :=
  f.entry?.map fun m => {
    description := f.description
    trigger := m.trigger
    onTap := m.onTap
    onHold := m.onHold
    onTimeout := (m.delayed.map (·.onInvoked)).getD []
    window := entryWindow m
    gatingFlag := m.gateFlags.head? }

end Fragment

end KeyRules
