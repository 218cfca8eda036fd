import KeyRules.Proofs.Engine.Keys
import KeyRules.Proofs.Engine.Timers

/-!
# Calm moments

Where no timer runs and no window closes, time only moves the clock. Then a key that goes down meets the state as it
was.
-/

namespace KeyRules.Engine

section
variable {rules : List Manipulator}

/-! ## The clock -/

theorem State.tick_clock (s : State) (instant : Nat) : (s.tick instant).now = max s.now instant := by
  unfold tick
  split <;> rfl

theorem advanceTo_clock (instant : Nat) (s : State) : (advanceTo rules instant s).now = max s.now instant :=
  (Moves.now (moves_advanceTo instant (x := { state := s }) rfl)).trans (s.tick_clock instant)

theorem State.tick_now {s : State} {instant : Nat} (h : s.now ≤ instant) : (s.tick instant).now = instant :=
  (s.tick_clock instant).trans (Nat.max_eq_right h)

@[simp] theorem State.tick_presses (s : State) (instant : Nat) : (s.tick instant).presses = s.presses := by
  unfold tick
  split <;> rfl

@[simp] theorem State.tick_pending (s : State) (instant : Nat) : (s.tick instant).pending = s.pending := by
  unfold tick
  split <;> rfl

@[simp] theorem State.tick_buffer (s : State) (instant : Nat) : (s.tick instant).buffer = s.buffer := by
  unfold tick
  split <;> rfl

@[simp] theorem State.tick_flags (s : State) (instant : Nat) : (s.tick instant).flags = s.flags := by
  unfold tick
  split <;> rfl

@[simp] theorem State.tick_timers (s : State) (instant : Nat) : (s.tick instant).timers = s.timers := by
  simp only [timers, tick_presses, tick_pending]

@[simp] theorem State.tick_heldLists (s : State) (instant : Nat) : (s.tick instant).heldLists = s.heldLists := by
  simp only [heldLists, tick_presses]

/-! ## Timers -/

theorem fireWhile_of_timers_nil {s : State} (h : s.timers = []) (isDue : Deadline → Bool) (n : Nat) :
    fireWhile rules isDue n s = s := by
  cases n with
  | zero => rfl
  | succ n =>
    simp only [fireWhile, h]
    rfl

theorem settle_of_timers_nil {s : State} (h : s.timers = []) (isDue : Deadline → Bool) :
    settle rules isDue s = s := fireWhile_of_timers_nil h isDue _

variable (rules) in
/-- The clock moves, and the timers fire that are due. -/
def pass (instant : Nat) (s : State) : State := settleBy rules (s.tick instant).now (s.tick instant)

section
variable {s : State} {instant : Nat}

theorem pass_now (later : s.now ≤ instant) : (pass rules instant s).now = instant :=
  (settle_now rules _ _).trans (State.tick_now later)

theorem pass_buffer (instant : Nat) (s : State) : (pass rules instant s).buffer = s.buffer :=
  (settle_buffer rules _ _).trans (s.tick_buffer instant)

theorem pass_heldLists (instant : Nat) (s : State) : (pass rules instant s).heldLists = s.heldLists :=
  (settle_keeps fire_heldLists _ _).trans (s.tick_heldLists instant)

theorem pass_isDown (instant : Nat) (s : State) (k : Key) : (pass rules instant s).isDown k = s.isDown k := by
  rw [Bool.eq_iff_iff, State.isDown_iff, State.isDown_iff, pass_heldLists, State.buffered, pass_buffer, State.buffered]

/-- Unless a window closes, no more happens as time goes on. -/
theorem advanceTo_pass (early : ∀ b, s.buffer = some b → max s.now instant < b.deadline.instant) :
    advanceTo rules instant s = pass rules instant s := by
  have clock := s.tick_clock instant
  unfold advanceTo fireDue
  simp only [State.tick_buffer]
  cases held : s.buffer with
  | none => rfl
  | some b =>
    have := early b held
    simp only
    rw [if_neg (by omega)]
    rfl

end

/-- Without timers and before the window of a buffer closes, only the clock moves. -/
theorem advanceTo_calm {s : State} (calm : s.timers = []) {instant : Nat}
    (early : ∀ b, s.buffer = some b → max s.now instant < b.deadline.instant) :
    advanceTo rules instant s = s.tick instant :=
  (advanceTo_pass early).trans (settle_of_timers_nil (s.tick_timers instant ▸ calm) _)

theorem advanceTo_quiet {s : State} (calm : s.timers = []) {instant : Nat} (later : s.now ≤ instant)
    (early : ∀ b, s.buffer = some b → instant < b.deadline.instant) :
    advanceTo rules instant s = s.tick instant :=
  advanceTo_calm calm fun b hb => (Nat.max_eq_right later).symm ▸ early b hb

theorem advanceTo_free {s : State} (free : s.buffer = none) {instant : Nat} (later : s.now ≤ instant) :
    advanceTo rules instant s = settleBy rules instant (s.tick instant) := by
  rw [advanceTo_pass fun b hb => by simp [free] at hb, pass, State.tick_now later]

theorem flushHolding_free {s : State} (free : s.buffer = none) (k : Key) : flushHolding rules k s = s := by
  unfold flushHolding
  rw [free]

theorem keyUp_free (free : s.buffer = none) {instant : Nat} (later : s.now ≤ instant) :
    keyUp rules k instant s = release rules k instant (settleBy rules instant (s.tick instant)) := by
  have hf : (settleBy rules instant (s.tick instant)).buffer = none :=
    (settle_buffer rules _ _).trans ((s.tick_buffer instant).trans free)
  have hn : (settleBy rules instant (s.tick instant)).now = instant :=
    (settle_now rules _ _).trans (State.tick_now later)
  unfold keyUp
  simp only [advanceTo_free free later, flushHolding_free hf, hn]

/-! ## Rules are found by the flags -/

theorem reactsTo_flags {s t : State} (flags : s.flags = t.flags) (k : Key) (simultaneous : Bool) :
    reactsTo s k simultaneous = reactsTo t k simultaneous := by
  funext m
  unfold reactsTo State.gatesOpen
  rw [flags]

theorem findRule_flags {s t : State} (flags : s.flags = t.flags) (k : Key) (simultaneous : Bool) :
    findRule rules s k simultaneous = findRule rules t k simultaneous := by
  rw [findRule, reactsTo_flags flags, findRule]

theorem openCandidates_flags {s t : State} (flags : s.flags = t.flags) (k : Key) :
    openCandidates rules s k = openCandidates rules t k := by
  unfold openCandidates State.gatesOpen
  rw [flags]

theorem eq_singleton_of_nodup {is : List Nat} {i : Nat} (nodup : is.Nodup) (one : ∀ j, j ∈ is ↔ j = i) : is = [i] := by
  have same : is.Perm [i] := (List.perm_ext_iff_of_nodup nodup (List.nodup_singleton i)).2 fun j =>
    (one j).trans List.mem_singleton.symm
  exact List.perm_singleton.1 same

/-! ## Keys that go down -/

theorem State.isDown_false {s : State} {k : Key} (held : k ∉ s.heldLists.flatten) (buffered : k ∉ s.buffered) :
    s.isDown k = false := by
  have hk : k ∉ s.heldLists.flatten ++ s.buffered := by
    rw [List.mem_append, not_or]
    exact ⟨held, buffered⟩
  rwa [← State.isDown_iff, Bool.not_eq_true] at hk

theorem State.unheld {s : State} {k : Key} (up : s.isDown k = false) : k ∉ s.heldLists.flatten := by
  intro held
  rw [(s.isDown_iff k).2 (List.mem_append_left _ held)] at up
  cases up

theorem keyDown_up {s : State} {k : Key} {instant : Nat} (up : (advanceTo rules instant s).isDown k = false) :
    keyDown rules k instant s = accept rules k (advanceTo rules instant s) := by
  unfold keyDown
  simp only
  rw [up]
  rfl

theorem accept_free {s : State} (free : s.buffer = none) (k : Key) :
    accept rules k s = press rules k s.now true (s.note (.accepted k s.now)) := by
  have hf : (s.note (.accepted k s.now)).buffer = none := free
  unfold accept
  simp only [hf]
  rfl

theorem accept_held {s : State} {b : Buffer} (held : s.buffer = some b) (k : Key) :
    accept rules k s = extend rules b k s.now (s.note (.accepted k s.now)) := by
  have hf : (s.note (.accepted k s.now)).buffer = some b := held
  unfold accept
  simp only [hf]
  rfl

/-! ## One key that is held back -/

theorem triggerKeys_eq {i : Nat} {m : Manipulator} (hm : rules[i]? = some m) :
    triggerKeys rules i = m.trigger.keys := by
  simp [triggerKeys, hm]

theorem complete_one {b : Buffer} {k : Key × Nat} (one : b.keys = [k])
    (two : ∀ i ∈ b.candidates, 2 ≤ (triggerKeys rules i).length) : complete? rules b = none := by
  refine List.find?_eq_none.2 fun i hi => ?_
  have := two i hi
  rw [isComplete, one, beq_iff_eq, List.length_singleton]
  omega

/-- When no timer runs, a single key that is let go is pressed at once. -/
theorem flush_one {s : State} (calm : s.timers = []) {b : Buffer} {k : Key} {since : Nat}
    (one : b.keys = [(k, since)]) :
    flush rules b s = press rules k since false ({ s with buffer := none }.note (.flushed 1)) := by
  have ht : ({ s with buffer := none }.note (.flushed 1)).timers = [] := calm
  unfold flush
  rw [one]
  simp only [List.foldl_cons, List.foldl_nil, replay, List.length_singleton]
  exact congrArg _ (settle_of_timers_nil ht _)

end

end KeyRules.Engine
