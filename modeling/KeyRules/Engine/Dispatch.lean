import KeyRules.Engine.Timers

/-!
# Presses

A press is dispatched to the first rule that matches it. It disturbs everything in flight: other presses
are not alone any more, hold timers stop, and running countdowns are canceled, or dropped if one of
their own keys goes down again. A release sends the tap if the press was short and undisturbed, and then
starts the countdown of the delayed action.
-/

namespace KeyRules.Engine

/-- How long a press counts as a tap where a rule does not say. -/
def defaultTapLimit : Nat := 1000

def Press.disturb (p : Press) : Press := { p with isAlone := false, holdTimer := none }

section

variable (rules : List Manipulator)

/-- Ends a running countdown because keys go down. -/
def endCountdown (keys : List Key) (s : State) (p : Pending) : State :=
  if p.owners.any (· ∈ keys) then s.note (.dropped p.press p.rule)
  else s.emit p.press p.rule .canceled none (eventsOf rules p.rule onCanceled)

/-- A new press of keys disturbs all that is in flight. A delayed action whose countdown has not
started waits for its own release. -/
def interrupt (keys : List Key) (s : State) : State :=
  let calm := { s with
    presses := s.presses.map Press.disturb
    pending := s.pending.filter (·.deadline.isNone) }
  (s.pending.filter (·.deadline.isSome)).foldl (endCountdown rules keys) calm

/-- The delayed action of a press. -/
def awaitRelease (id : Nat) (keys : List Key) (rule : Nat) (m : Manipulator) (s : State) : State :=
  if m.delayed.isSome then
    { s with pending := s.pending ++ [{ press := id, owners := keys, rule := rule }] }
  else s

/-- Begins a press of a rule. -/
def beginRule (id : Nat) (keys : List Key) (rule : Nat) (instant : Nat) (m : Manipulator) (s : State) :
    State :=
  let s := awaitRelease id keys rule m s
  let press : Press := { id := id, held := keys, rule := some rule, since := instant }
  let s :=
    match m.holdThreshold with
    | none => { s with presses := s.presses ++ [press] }
    | some threshold =>
      let timer : Deadline := ⟨after instant threshold.toNat, s.serial + 1⟩
      { s with presses := s.presses ++ [{ press with holdTimer := some timer }], serial := s.serial + 1 }
  s.emit id rule .press (some id) m.onPress

/-- Begins a press that no rule matches: its keys go through as they are. -/
def beginPlain (id : Nat) (keys : List Key) (instant : Nat) (s : State) : State :=
  let press : Press := { id := id, held := keys, rule := none, since := instant }
  { s with presses := s.presses ++ [press] }.holdDown id keys

/-- Begins a press of keys, matched to a rule or passed through. -/
def dispatch (keys : List Key) (rule : Option Nat) (instant : Nat) (s : State) : State :=
  let id := s.serial + 1
  let s := s.note (.dispatched id keys rule instant s.flags)
  let s := { interrupt rules keys s with serial := id }
  match rule with
  | none => beginPlain id keys instant s
  | some index =>
    match rules[index]? with
    | none => beginPlain id keys instant s
    | some m => beginRule id keys index instant m s

/-- The press was short enough, undisturbed, and its hold events were not sent. -/
def isTap (m : Manipulator) (p : Press) (instant : Nat) : Bool :=
  p.isAlone && !p.holdFired
    && decide (instant - p.since < (m.tapLimit.map UInt32.toNat).getD defaultTapLimit)

/-- Starts the countdown of the delayed action of a press. -/
def startCountdown (id : Nat) (m : Manipulator) (instant : Nat) (s : State) : State :=
  match m.delayed with
  | none => s
  | some d =>
    let deadline : Deadline := ⟨after instant d.delay.toNat, s.serial + 1⟩
    { s with
      serial := s.serial + 1
      pending := s.pending.map fun p =>
        if p.press = id ∧ p.deadline = none then { p with deadline := some deadline } else p }

/-- The last key of a press of a rule went up. -/
def endRule (p : Press) (rule : Nat) (m : Manipulator) (instant : Nat) (s : State) : State :=
  let tapped := isTap m p instant
  let s := if tapped then s.emit p.id rule .tap none m.onTap else s
  if tapped && halts m.onTap then s.forgetPending p.id
  else startCountdown p.id m instant (s.emit p.id rule .release none m.onRelease)

/-- The last key of a press went up. -/
def endPress (p : Press) (instant : Nat) (s : State) : State :=
  let s := { s with presses := s.presses.filter fun q => q.id != p.id }.note (.released p.id)
  match p.rule with
  | none => s
  | some index =>
    match rules[index]? with
    | none => s
    | some m => endRule p index m instant s

/-- The youngest press that holds a key. -/
def State.holder? (s : State) (k : Key) : Option Press :=
  s.presses.reverse.find? fun p => p.held.contains k

/-- A key goes up. The first key of a press to go up releases what the press holds, the last one ends
the press. -/
def release (k : Key) (instant : Nat) (s : State) : State :=
  match s.holder? k with
  | none => s.note (.strayUp k)
  | some p =>
    let left := p.held.filter (· != k)
    let s := (s.updatePress p.id fun q => { q with held := left }).releaseOutputs p
    if left.isEmpty then endPress rules p instant s else s

end

end KeyRules.Engine
