import KeyRules.Engine.Dispatch

/-!
# Buffering

A key that the first matching rule wants together with others is held back. Every further key narrows the
candidates. The buffer ends when a candidate is complete and no earlier one still waits, when a key fits
no candidate, when one of its keys goes up, or when its window closes. Keys that complete no candidate
are then replayed as presses of their own.
-/

namespace KeyRules.Engine

/-- A rule whose gates are open reacts to a key-down, as a simultaneous trigger only if those count. -/
def reactsTo (s : State) (k : Key) (simultaneous : Bool) (m : Manipulator) : Bool :=
  s.gatesOpen m.gates
    && match m.trigger with
      | .single j _ => j == k
      | t => simultaneous && t.opensWith k

section

variable (rules : List Manipulator)

def findRule (s : State) (k : Key) (simultaneous : Bool) : Option Nat :=
  rules.findIdx? (reactsTo s k simultaneous)

def triggerKeys (i : Nat) : List Key := (rules[i]?.map (·.trigger.keys)).getD []

/-- The rules that a key-down may open. -/
def openCandidates (s : State) (k : Key) : List Nat :=
  (List.range rules.length).filter fun i =>
    rules[i]?.any fun m => s.gatesOpen m.gates && m.trigger.opensWith k

/-- Holds a key back. The first candidate sets the window. -/
def startBuffer (k : Key) (instant : Nat) (s : State) : State :=
  let candidates := openCandidates rules s k
  let window := do (← rules[← candidates.head?]?).trigger.window?
  let deadline : Deadline := ⟨after instant ((window.map UInt32.toNat).getD 0), s.serial + 1⟩
  { s with
    serial := s.serial + 1
    buffer := some ⟨[(k, instant)], candidates, deadline⟩ }.note (.buffered k candidates s.flags)

/-- A key goes down while nothing is held back. -/
def press (k : Key) (instant : Nat) (simultaneous : Bool) (s : State) : State :=
  match findRule rules s k simultaneous with
  | none => dispatch rules [k] none instant s
  | some i =>
    if rules[i]?.any (·.trigger.isTogether) then startBuffer rules k instant s
    else dispatch rules [k] (some i) instant s

/-- One key of a flushed buffer goes down at its own instant. -/
def replay (s : State) (k : Key × Nat) : State := press rules k.1 k.2 false (settleBy rules k.2 s)

/-- Replays the buffered keys one by one. -/
def flush (b : Buffer) (s : State) : State :=
  b.keys.foldl (replay rules) ({ s with buffer := none }.note (.flushed b.keys.length))

/-- A candidate has all its keys. -/
def isComplete (b : Buffer) (i : Nat) : Bool := (triggerKeys rules i).length == b.keys.length

/-- The first candidate that has all its keys. -/
def complete? (b : Buffer) : Option Nat := b.candidates.find? (isComplete rules b)

/-- A candidate declared before rule `i` still waits for a key. -/
def isWaiting (b : Buffer) (i : Nat) : Bool :=
  b.candidates.any fun j => decide (j < i) && !isComplete rules b j

def Buffer.lastKey (b : Buffer) (now : Nat) : Nat := (b.keys.getLast?.map (·.2)).getD now

/-- Dispatches the buffered keys to a rule. -/
def finish (b : Buffer) (i : Nat) (s : State) : State :=
  let s := { s with buffer := none }
  let s :=
    match rules[i]? with
    | none => s
    | some m => s.note (.matched i m.trigger b)
  dispatch rules (b.keys.map (·.1)) (some i) (b.lastKey s.now) s

/-- The window of a buffer closed: the first complete candidate wins, without one the keys are replayed. -/
def closeWindow (b : Buffer) (s : State) : State :=
  let s := s.note (.windowClosed b.deadline)
  match complete? rules b with
  | some i => finish rules b i s
  | none => flush rules b s

/-- A key went into the buffer: the first complete candidate wins unless an earlier one still waits. -/
def tryFinish (b : Buffer) (s : State) : State :=
  match complete? rules b with
  | some i => if isWaiting rules b i then s else finish rules b i s
  | none => s

/-- A key goes down while others are held back. -/
def extend (b : Buffer) (k : Key) (instant : Nat) (s : State) : State :=
  let pressed := b.keys.map (·.1) ++ [k]
  let candidates := b.candidates.filter fun i => rules[i]?.any fun m => m.trigger.accepts pressed
  if candidates.isEmpty then press rules k instant true (flush rules b s)
  else
    let b := { b with keys := b.keys ++ [(k, instant)], candidates := candidates }
    tryFinish rules b { s with buffer := some b }

/-- Fires every timer due by an instant. The window of a buffer counts among them; the timers up to it
fire before it closes, and those that its keys start fire after. -/
def fireDue (instant : Nat) (s : State) : State :=
  match s.buffer with
  | none => settleBy rules instant s
  | some b =>
    if b.deadline.instant ≤ instant then
      settleBy rules instant (closeWindow rules b (settle rules (fun d => !b.deadline.before d) s))
    else settleBy rules instant s

end

end KeyRules.Engine
