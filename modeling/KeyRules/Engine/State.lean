import KeyRules.RuleSet

/-!
# Engine state

The engine replays physical key events through a list of manipulators. Its state holds the flags that are
set, the presses in flight, the delayed actions and lazy keys that wait, and the key-downs that a
simultaneous trigger may still use. It also keeps a journal of everything it decided, which is where its
messages come from.

Instants are milliseconds on a clock of 64 bits.
-/

namespace KeyRules

/-- One event on the output side. -/
inductive Output where
  | down (key : Key)
  | up (key : Key)
  | paste (text : String)
  deriving DecidableEq, Repr

def Output.text : Output → String
  | down key => "+" ++ key.name
  | up key => "-" ++ key.name
  | paste content => "paste(" ++ Text.quoted content ++ ")"

namespace Engine

/-- The last instant of the clock. -/
def lastInstant : Nat := UInt64.size - 1

/-- The instant a duration later, at most the last one. -/
def after (instant : Nat) (duration : Nat) : Nat := min (instant + duration) lastInstant

/-- When a timer is due. Of two timers due at one instant the older one comes first. -/
structure Deadline where
  instant : Nat
  serial : Nat
  deriving DecidableEq, Repr

def Deadline.before (d e : Deadline) : Bool :=
  d.instant < e.instant || (d.instant == e.instant && d.serial < e.serial)

/-- A physical press, matched to a rule by its index or passed through. -/
structure Press where
  id : Nat
  /-- The physical keys that are still down. -/
  held : List Key
  rule : Option Nat
  since : Nat
  /-- No other press has gone down during this one. -/
  isAlone : Bool := true
  holdFired : Bool := false
  holdTimer : Option Deadline := none
  /-- The keys sent down for this press and not yet sent up. -/
  outputs : List Key := []
  deriving DecidableEq, Repr

/-- A delayed action. Its countdown runs once there is a deadline. -/
structure Pending where
  press : Nat
  owners : List Key
  rule : Nat
  deadline : Option Deadline := none
  deriving DecidableEq, Repr

/-- The keys of a lazy stroke, which wait until another key needs them. -/
structure Armed where
  press : Nat
  keys : List Key
  isSent : Bool := false
  deriving DecidableEq, Repr

/-- Key-downs held back, with their instants, while one of the candidate rules may still be completed. -/
structure Buffer where
  keys : List (Key × Nat)
  candidates : List Nat
  deadline : Deadline
  deriving DecidableEq, Repr

inductive Stage where
  | press
  | tap
  | hold
  | release
  | invoked
  | canceled
  deriving DecidableEq, Repr

/-- One line of the journal. -/
inductive Incident where
  /-- An event came with an instant before the clock. -/
  | late (instant now : Nat)
  /-- A key went down that was up. -/
  | accepted (key : Key) (instant : Nat)
  | repeatedDown (key : Key)
  | strayUp (key : Key)
  /-- A key opened a buffer. The flags are those set at that moment. -/
  | buffered (key : Key) (candidates : List Nat) (flags : List Flag)
  /-- Buffered keys are replayed one by one. -/
  | flushed (size : Nat)
  /-- A buffer ends because it completes the trigger of a rule. -/
  | matched (rule : Nat) (trigger : Trigger) (buffer : Buffer)
  /-- A press begins. The flags are those set just before it. -/
  | dispatched (press : Nat) (keys : List Key) (rule : Option Nat) (instant : Nat) (flags : List Flag)
  /-- A hold timer or a countdown ran out. -/
  | fired (deadline : Deadline)
  /-- The window of a buffer closed. -/
  | windowClosed (deadline : Deadline)
  | invoked (rule instant : Nat)
  | dropped (press rule : Nat)
  /-- An event list of a rule was sent for a press. -/
  | emitted (press rule : Nat) (stage : Stage)
  /-- The last key of a press went up. -/
  | released (press : Nat)
  /-- Lazy keys start to wait. -/
  | armed (press : Nat) (keys : List Key)
  /-- Lazy keys that waited are sent. -/
  | applied (press : Nat) (keys : List Key)
  /-- Lazy keys of a press are gone. -/
  | disarmed (press : Nat) (keys : List Key) (wasSent : Bool)
  | sent (output : Output)
  deriving DecidableEq, Repr

/-- The message of an incident that is reported. -/
def Incident.message? : Incident → Option Message
  | late instant now =>
    some ⟨.warn, "event at " ++ toString instant ++ "ms arrived after " ++ toString now
      ++ "ms; treating it as " ++ toString now ++ "ms"⟩
  | repeatedDown key => some ⟨.trace, "ignoring repeated key-down of " ++ key.name⟩
  | strayUp key => some ⟨.trace, "key-up of " ++ key.name ++ " without a matching press"⟩
  | buffered key candidates _ =>
    some ⟨.trace, "buffering " ++ key.name ++ " for " ++ toString candidates.length
      ++ " simultaneous candidates"⟩
  | flushed size => some ⟨.trace, "flushing " ++ toString size ++ " buffered keys"⟩
  | matched _ trigger _ => some ⟨.debug, "simultaneous " ++ trigger.text ++ " matched"⟩
  | invoked rule instant =>
    some ⟨.trace, "delayed action of rule " ++ toString rule ++ " invoked at " ++ toString instant
      ++ "ms"⟩
  | dropped _ rule => some ⟨.trace, "dropping delayed action of rule " ++ toString rule⟩
  | _ => none

structure State where
  /-- The flags that are set. -/
  flags : List Flag := []
  /-- The presses in flight, oldest first. -/
  presses : List Press := []
  pending : List Pending := []
  armed : List Armed := []
  buffer : Option Buffer := none
  /-- What was sent and not yet taken. -/
  output : List Output := []
  now : Nat := 0
  /-- The number given out last to a press or a timer. -/
  serial : Nat := 0
  journal : List Incident := []
  deriving DecidableEq, Repr

namespace State

/-- The value of a flag; one that was never written is clear. -/
def flag (s : State) (f : Flag) : Bool := f ∈ s.flags

def gatesOpen (s : State) (gates : List Gate) : Bool := gates.all (Gate.isOpen s.flags)

def armedKeys (s : State) : List Key := (s.armed.filter fun a => !a.isSent).flatMap (·.keys)

/-- A key is down if a press or the buffer holds it. -/
def isDown (s : State) (k : Key) : Bool :=
  s.presses.any (fun p => p.held.contains k) || s.buffer.any fun b => b.keys.any fun (j, _) => j == k

def note (s : State) (i : Incident) : State := { s with journal := s.journal ++ [i] }

def setFlag (s : State) (f : Flag) (value : Bool) : State :=
  if value then { s with flags := if f ∈ s.flags then s.flags else s.flags ++ [f] }
  else { s with flags := s.flags.filter (· != f) }

def updatePress (s : State) (id : Nat) (change : Press → Press) : State :=
  { s with presses := s.presses.map fun p => if p.id = id then change p else p }

def forgetPending (s : State) (id : Nat) : State :=
  { s with pending := s.pending.filter fun p => p.press != id }

def messages (s : State) : List Message := s.journal.filterMap Incident.message?

end State

end Engine

end KeyRules
