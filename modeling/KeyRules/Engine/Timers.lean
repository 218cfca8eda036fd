import KeyRules.Engine.Sending

/-!
# Timers

Countdowns of delayed actions and hold timers fire in order of their deadlines. Firing removes a timer
and sends events, which never start another one, so as many rounds as there are timers are enough.
-/

namespace KeyRules.Engine

/-- A countdown of a delayed action or the hold timer of a press. -/
inductive Timer where
  | countdown (p : Pending)
  | hold (p : Press)
  deriving DecidableEq, Repr

/-- The manipulator of a press or a delayed action sends these events. -/
def eventsOf (rules : List Manipulator) (rule : Nat) (list : Manipulator → List Event) : List Event :=
  (rules[rule]?.map list).getD []

/-- What a delayed action sends when its countdown ends. -/
def onInvoked (m : Manipulator) : List Event := (m.delayed.map (·.onInvoked)).getD []

/-- What a delayed action sends when another key goes down. -/
def onCanceled (m : Manipulator) : List Event := (m.delayed.map (·.onCanceled)).getD []

/-- The first of the timers with the least deadline. -/
def earliest : List (Deadline × Timer) → Option (Deadline × Timer)
  | [] => none
  | t :: ts =>
    match earliest ts with
    | none => some t
    | some u => if u.1.before t.1 then some u else some t

namespace State

def timers (s : State) : List (Deadline × Timer) :=
  s.pending.filterMap (fun p => p.deadline.map (·, Timer.countdown p))
    ++ s.presses.filterMap fun p => p.holdTimer.map (·, Timer.hold p)

end State

section

variable (rules : List Manipulator)

/-- The hold events of a press are sent. A halting one settles the press: its delayed action is off. -/
def fireHold (s : State) (p : Press) : State :=
  let s := s.updatePress p.id fun p => { p with holdTimer := none, holdFired := true }
  match p.rule with
  | none => s
  | some rule =>
    let es := eventsOf rules rule (·.onHold)
    let s := s.emit p.id rule .hold (some p.id) es
    if halts es then s.forgetPending p.id else s

/-- The countdown of a delayed action is over. -/
def fireCountdown (s : State) (p : Pending) (instant : Nat) : State :=
  ((s.forgetPending p.press).note (.invoked p.rule instant)).emit p.press p.rule .invoked none
    (eventsOf rules p.rule onInvoked)

def fire (s : State) (d : Deadline) : Timer → State
  | .countdown p => fireCountdown rules (s.note (.fired d)) p d.instant
  | .hold p => fireHold rules (s.note (.fired d)) p

/-- Fires timers in order while they are due, at most `count` of them. -/
def fireWhile (isDue : Deadline → Bool) : Nat → State → State
  | 0, s => s
  | count + 1, s =>
    match earliest s.timers with
    | none => s
    | some (d, timer) => if isDue d then fireWhile isDue count (fire rules s d timer) else s

def settle (isDue : Deadline → Bool) (s : State) : State := fireWhile rules isDue s.timers.length s

def settleBy (instant : Nat) (s : State) : State := settle rules (·.instant ≤ instant) s

end

end KeyRules.Engine
