import KeyRules.Engine.State

/-!
# Sending events

Strokes are held by a press until it is released, or tapped when no press holds them. A lazy stroke of a
press only arms its keys; they go out in front of the next key that is not a modifier.
-/

namespace KeyRules.Engine

/-- The keys of a stroke, modifiers first. -/
def strokeKeys (s : Stroke) : List Key := s.modifiers.filterMap Modifier.key? ++ [s.key]

namespace State

def send (s : State) (o : Output) : State := { s with output := s.output ++ [o] }.note (.sent o)

def sendAll (s : State) (os : List Output) : State := os.foldl send s

def sendWaiting (s : State) (a : Armed) : State :=
  (s.note (.applied a.press a.keys)).sendAll (a.keys.map .down)

def sendArmed (s : State) : State :=
  (s.armed.filter fun a => !a.isSent).foldl sendWaiting
    { s with armed := s.armed.map fun a => { a with isSent := true } }

/-- Sends a key down. A key that is no modifier takes the waiting lazy keys along. -/
def sendDown (s : State) (k : Key) : State :=
  (if k.isModifier then s else s.sendArmed).send (.down k)

def sendDowns (s : State) (ks : List Key) : State := ks.foldl sendDown s

/-- Sends keys up in reverse order. -/
def sendUps (s : State) (ks : List Key) : State := s.sendAll (ks.reverse.map .up)

/-- Sends keys down for a press, which holds them. -/
def holdDown (s : State) (id : Nat) (ks : List Key) : State :=
  (s.sendDowns ks).updatePress id fun p => { p with outputs := p.outputs ++ ks }

/-- Makes keys wait for a press. -/
def arm (s : State) (id : Nat) (ks : List Key) : State :=
  let s := s.note (.armed id ks)
  { s with armed := s.armed ++ [{ press := id, keys := ks }] }

/-- Sends one event, for the press that holds it if there is one. -/
def sendEvent (holder : Option Nat) (s : State) : Event → State
  | .setFlag f value => s.setFlag f value
  | .paste text => s.send (.paste text)
  | .stroke stroke =>
    let keys := strokeKeys stroke
    match holder with
    | none => (s.sendDowns keys).sendUps keys
    | some id => if stroke.isLazy then s.arm id keys else s.holdDown id keys

def sendEvents (holder : Option Nat) (s : State) (es : List Event) : State :=
  es.foldl (sendEvent holder) s

/-- Sends an event list of a rule for a press. -/
def emit (s : State) (press rule : Nat) (stage : Stage) (holder : Option Nat) (es : List Event) :
    State :=
  (s.note (.emitted press rule stage)).sendEvents holder es

/-- Removes lazy keys of a released press; those that were sent go up. -/
def disarm (s : State) (a : Armed) : State :=
  let s := s.note (.disarmed a.press a.keys a.isSent)
  if a.isSent then s.sendUps a.keys else s

/-- Sends up all that a press holds. Lazy keys that were never sent vanish. -/
def releaseOutputs (s : State) (p : Press) : State :=
  let s := (s.sendUps p.outputs).updatePress p.id fun p => { p with outputs := [] }
  let ours := s.armed.filter fun a => a.press == p.id
  ours.reverse.foldl disarm { s with armed := s.armed.filter fun a => a.press != p.id }

end State

/-- An event list settles the press that it is sent for. -/
def halts (es : List Event) : Bool := es.any Event.isHalting

end KeyRules.Engine
