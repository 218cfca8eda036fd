import KeyRules.Engine.Buffering

/-!
# Running the engine

Physical events come in with their instants. One that is older than the clock counts as happening now.
Before an event takes effect, every timer due by then fires.
-/

namespace KeyRules.Engine

/-- One thing that happens to the engine. -/
inductive Input where
  | down (key : Key) (instant : Nat)
  | up (key : Key) (instant : Nat)
  | advance (instant : Nat)
  /-- The output recorded so far is taken away. -/
  | take
  deriving DecidableEq, Repr

/-- Moves the clock forward; it never goes back. -/
def State.tick (s : State) (instant : Nat) : State :=
  let s := if instant < s.now then s.note (.late instant s.now) else s
  { s with now := max s.now instant }

section

variable (rules : List Manipulator)

def advanceTo (instant : Nat) (s : State) : State :=
  let s := s.tick instant
  fireDue rules s.now s

/-- A key that is up goes down. -/
def accept (k : Key) (s : State) : State :=
  let s := s.note (.accepted k s.now)
  match s.buffer with
  | none => press rules k s.now true s
  | some b => extend rules b k s.now s

/-- A key goes down; a repeat counts for nothing. -/
def keyDown (k : Key) (instant : Nat) (s : State) : State :=
  let s := advanceTo rules instant s
  if s.isDown k then s.note (.repeatedDown k) else accept rules k s

/-- A buffer that holds a key ends when the key goes up. -/
def flushHolding (k : Key) (s : State) : State :=
  match s.buffer with
  | none => s
  | some b => if b.keys.any fun (j, _) => j == k then flush rules b s else s

def keyUp (k : Key) (instant : Nat) (s : State) : State :=
  let s := advanceTo rules instant s
  release rules k s.now (flushHolding rules k s)

def step (s : State) : Input → State
  | .down k instant => keyDown rules k instant s
  | .up k instant => keyUp rules k instant s
  | .advance instant => advanceTo rules instant s
  | .take => { s with output := [] }

/-- The state after inputs, from the start. -/
def run (inputs : List Input) : State := inputs.foldl (step rules) {}

end

end KeyRules.Engine
