import KeyRules.Proofs.Engine.Effects
import Mathlib.Data.List.Induction
import Mathlib.Logic.Relation

/-!
# Sessions

A session is a run as an observer sees it: the state, which keys were accepted, which are down, when keys went up,
and what was taken from the output. An operation of the engine is a series of moves. Between two of them a key that
went down can wait: it was accepted, or its buffer was flushed, and it is not dispatched yet. `Reachable` collects every
moment of every run, those between two moves included, so an invariant needs one proof for each move.
-/

namespace KeyRules.Engine

structure Session where
  state : State := {}
  /-- Keys that went down and are neither dispatched nor held back, oldest first. -/
  waiting : List (Key × Nat) := []
  /-- The keys of the accepted key-downs, in order. -/
  accepted : List Key := []
  /-- The keys whose last event was a key-down. -/
  down : List Key := []
  /-- The clock at each key-up. -/
  releases : List Nat := []
  /-- The output taken so far. -/
  taken : List Output := []

def pressDown (down : List Key) (k : Key) : List Key := if k ∈ down then down else down ++ [k]

/-- Everything that was ever output. -/
def Session.transcript (x : Session) : List Output := x.taken ++ x.state.output

def State.buffered (s : State) : List Key := (s.buffer.map fun b => b.keys.map (·.1)).getD []

section
variable (rules : List Manipulator)

/-- One input. A key-down is accepted if its key is not down after the due timers fired. -/
def Session.step (x : Session) : Input → Session
  | .down k instant => { x with
      state := keyDown rules k instant x.state
      accepted :=
        if (advanceTo rules instant x.state).isDown k then x.accepted else x.accepted ++ [k]
      down := pressDown x.down k }
  | .up k instant => { x with
      state := keyUp rules k instant x.state
      down := x.down.filter (· != k)
      releases := x.releases ++ [(keyUp rules k instant x.state).now] }
  | .advance instant => { x with state := advanceTo rules instant x.state }
  | .take => { x with state := { x.state with output := [] }, taken := x.taken ++ x.state.output }

def session (inputs : List Input) : Session := inputs.foldl (Session.step rules) {}

theorem Session.step_state (x : Session) (i : Input) : (x.step rules i).state = Engine.step rules x.state i := by
  cases i <;> rfl

theorem session_append (inputs : List Input) (i : Input) :
    session rules (inputs ++ [i]) = (session rules inputs).step rules i := by
  simp [session, List.foldl_append]

theorem run_append (inputs : List Input) (i : Input) : run rules (inputs ++ [i]) = step rules (run rules inputs) i := by
  simp [run, List.foldl_append]

theorem run_continues (inputs more : List Input) :
    run rules (inputs ++ more) = more.foldl (step rules) (run rules inputs) := List.foldl_append

theorem session_state (inputs : List Input) : (session rules inputs).state = run rules inputs := by
  induction inputs using List.reverseRecOn with
  | nil => rfl
  | append_singleton inputs i ih =>
    rw [session_append, Session.step_state, ih, run_append]

def Input.isUpOf (k : Key) : Input → Bool
  | .up j _ => j == k
  | _ => false

/-- Every key that goes down goes up later. -/
def allReleased : List Input → Bool
  | [] => true
  | .down k _ :: inputs => inputs.any (Input.isUpOf k) && allReleased inputs
  | _ :: inputs => allReleased inputs

/-- A key that is down at the end was down before and never went up. -/
theorem down_foldl {inputs : List Input} (released : allReleased inputs = true) {x : Session} {k : Key}
    (hk : k ∈ (inputs.foldl (Session.step rules) x).down) :
    k ∈ x.down ∧ inputs.any (Input.isUpOf k) = false := by
  induction inputs generalizing x with
  | nil => exact ⟨hk, rfl⟩
  | cons i inputs ih =>
    cases i with
    | down j instant =>
      obtain ⟨hj, hr⟩ := Bool.and_eq_true_iff.1 released
      obtain ⟨hm, hu⟩ := ih hr hk
      refine ⟨?_, hu⟩
      have hm : k ∈ pressDown x.down j := hm
      unfold pressDown at hm
      split at hm
      · exact hm
      · rcases List.mem_append.1 hm with hm | hm
        · exact hm
        · rw [List.mem_singleton.1 hm, hj] at hu
          cases hu
    | up j instant =>
      obtain ⟨hm, hu⟩ := ih released hk
      obtain ⟨hm, hne⟩ := List.mem_filter.1 hm
      refine ⟨hm, ?_⟩
      rw [List.any_cons, hu, Bool.or_false]
      exact beq_false_of_ne fun he => bne_iff_ne.1 hne he.symm
    | advance instant => exact ih (x := x.step rules (.advance instant)) released hk
    | take => exact ih (x := x.step rules .take) released hk

theorem session_down {inputs : List Input} (released : allReleased inputs = true) :
    (session rules inputs).down = [] :=
  List.eq_nil_iff_forall_not_mem.2 fun _ hk => List.not_mem_nil (down_foldl rules released hk).1

/-! ## Moves -/

/-- A step that the engine takes on its own. -/
inductive Move (x : Session) : Session → Prop where
  /-- The earliest timer fires. -/
  | fire {d : Deadline} {timer : Timer} (first : earliest x.state.timers = some (d, timer)) :
    Move x { x with state := fire rules x.state d timer }
  /-- The oldest waiting key begins a press of its own. Simultaneous triggers count for a fresh key only. -/
  | dispatch {k : Key} {instant : Nat} {later : List (Key × Nat)} (simultaneous : Bool)
      (free : x.state.buffer = none) (oldest : x.waiting = (k, instant) :: later)
      (fresh : simultaneous = true → later = [])
      (single : ∀ i, findRule rules x.state k simultaneous = some i →
        rules[i]?.any (·.trigger.isTogether) = false) :
    Move x { x with
      state := dispatch rules [k] (findRule rules x.state k simultaneous) instant x.state
      waiting := later }
  /-- A fresh key is held back. -/
  | holdBack {k : Key} {instant i : Nat} (free : x.state.buffer = none) (oldest : x.waiting = [(k, instant)])
      (found : findRule rules x.state k true = some i)
      (together : rules[i]?.any (·.trigger.isTogether) = true) :
    Move x { x with state := startBuffer rules k instant x.state, waiting := [] }
  /-- A fresh key joins those held back. -/
  | join {b : Buffer} {k : Key} {instant : Nat} {candidates : List Nat}
      (held : x.state.buffer = some b) (oldest : x.waiting = [(k, instant)])
      (narrowed : candidates = b.candidates.filter fun i =>
        rules[i]?.any fun m => m.trigger.accepts (b.keys.map (·.1) ++ [k]))
      (some_left : candidates ≠ []) :
    Move x { x with
      state := { x.state with
        buffer := some { b with keys := b.keys ++ [(k, instant)], candidates := candidates } }
      waiting := [] }
  /-- The window of the buffer closes. -/
  | close {b : Buffer} (held : x.state.buffer = some b) (due : b.deadline.instant ≤ x.state.now) :
    Move x { x with state := x.state.note (.windowClosed b.deadline) }
  /-- The buffered keys are dispatched to the first candidate that is complete. -/
  | finish {b : Buffer} {i : Nat} (held : x.state.buffer = some b) (idle : x.waiting = [])
      (first : complete? rules b = some i)
      (ready : isWaiting rules b i = false ∨ b.deadline.instant ≤ x.state.now) :
    Move x { x with state := finish rules b i x.state }
  /-- The buffered keys wait to be replayed. -/
  | flush {b : Buffer} (held : x.state.buffer = some b) :
    Move x { x with
      state := { x.state with buffer := none }.note (.flushed b.keys.length)
      waiting := b.keys ++ x.waiting }

abbrev Moves : Session → Session → Prop := Relation.ReflTransGen (Move rules)

end

end KeyRules.Engine
