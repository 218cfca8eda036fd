import KeyRules.Proofs.ChordOrder
import KeyRules.Proofs.Engine.PhysicalKeys
import KeyRules.Proofs.Engine.Renumbering
import KeyRules.Proofs.Engine.Slices
import KeyRules.Proofs.Engine.Unarmed

/-!
# Keys without a rule

A key that no trigger has passes through. While only such keys go down and up, the output is what a keyboard without
rules sends (`echo`), and nothing of the rules ever shows (`unmapped_passes`). The invariant is that every press in
flight holds one key, its own, and waits for nothing (`Passing`).
-/

namespace KeyRules.Engine

def Input.key? : Input → Option Key
  | .down k _ | .up k _ => some k
  | .advance _ | .take => none

/-- The keys that are down after an event. -/
def Input.keysDown (down : List Key) : Input → List Key
  | .down k _ => pressDown down k
  | .up k _ => down.filter (· != k)
  | .advance _ | .take => down

/-- What an event sends by itself: a key that is up goes down, or a key that is down goes up. -/
def Input.echo (down : List Key) : Input → List Output
  | .down k _ => if k ∈ down then [] else [.down k]
  | .up k _ => if k ∈ down then [.up k] else []
  | .advance _ | .take => []

/-- What a keyboard without rules sends. -/
def echo (down : List Key) : List Input → List Output
  | [] => []
  | i :: inputs => i.echo down ++ echo (i.keysDown down) inputs

/-- A key in flight that no rule took. -/
structure Press.Plain (p : Press) (k : Key) : Prop where
  held : p.held = [k]
  outputs : p.outputs = [k]
  rule : p.rule = none
  untimed : p.holdTimer = none

theorem Press.Plain.disturb {p : Press} {k : Key} (h : p.Plain k) : p.disturb.Plain k :=
  ⟨h.held, h.outputs, h.rule, rfl⟩

/-- Nothing is in flight but keys that passed through, and this is the output. -/
structure Passing (s : State) (os : List Output) : Prop where
  unarmed : Unarmed s [] s.presses [] os
  plain : ∀ p ∈ s.presses, ∃ k, p.Plain k

section
variable {rules : List Manipulator} {s : State} {os : List Output} {k : Key}

theorem Unarmed.passing {ps : List Press} (h : Unarmed s [] ps [] os) (plain : ∀ p ∈ ps, ∃ k, p.Plain k) :
    Passing s os := by
  obtain rfl := h.presses
  exact ⟨h, plain⟩

namespace Passing

theorem note (h : Passing s os) (l : Incident) : Passing (s.note l) os := (h.unarmed.note l).passing h.plain

theorem tick (h : Passing s os) (instant : Nat) : Passing (s.tick instant) os :=
  (h.unarmed.tick instant).passing h.plain

theorem calm (h : Passing s os) : s.timers = [] := by
  have none_held : s.presses.filterMap (fun p => p.holdTimer.map (·, Timer.hold p)) = [] := by
    refine List.filterMap_eq_nil_iff.2 fun p hp => ?_
    obtain ⟨k, plain⟩ := h.plain p hp
    rw [plain.untimed]
    rfl
  rw [State.timers, none_held, h.unarmed.pending]
  rfl

theorem advanceTo (h : Passing s os) (instant : Nat) : advanceTo rules instant s = s.tick instant :=
  advanceTo_calm h.calm fun b hb => by
    rw [h.unarmed.free] at hb
    cases hb

theorem dispatch (h : Passing s os) (fresh : ∀ p ∈ s.presses, p.id ≤ s.serial) (k : Key) (instant : Nat) :
    Passing (dispatch rules [k] none instant s) (os ++ [.down k]) := by
  have calm : Unarmed (disturbed rules [k] none instant s) [] (s.presses.map Press.disturb) [] os :=
    h.unarmed.disturbed (fun _ hc => (nomatch hc)) none instant
  have begun : Unarmed { disturbed rules [k] none instant s with
      presses := (disturbed rules [k] none instant s).presses ++
        [{ id := s.serial + 1, held := [k], rule := none, since := instant }] } [] _ [] os :=
    ⟨calm.flags, congrArg (· ++ _) calm.presses, calm.pending, calm.output, calm.armed, calm.free⟩
  have ruleless : ∀ i : Nat, none = some i → rules[i]? = none := fun _ found => (nomatch found)
  rw [dispatch_plain rules [k] ruleless]
  refine ((begun.sendDowns [k]).updatePress (s.serial + 1) _).passing fun p hp => ?_
  obtain ⟨q, hq, rfl⟩ := List.mem_map.1 hp
  -- the number of the new press is fresh, so the key goes to it alone
  rcases List.mem_append.1 hq with hq | hq
  · obtain ⟨r, hr, rfl⟩ := List.mem_map.1 hq
    obtain ⟨j, plain⟩ := h.plain r hr
    have older : r.disturb.id ≠ s.serial + 1 := Nat.ne_of_lt (Nat.lt_succ_of_le (fresh r hr))
    rw [if_neg older]
    exact ⟨j, plain.disturb⟩
  · obtain rfl := List.mem_singleton.1 hq
    rw [if_pos rfl]
    exact ⟨k, rfl, rfl, rfl, rfl⟩

theorem release (h : Passing s os) (down : k ∈ s.heldLists.flatten) (instant : Nat) :
    Passing (release rules k instant s) (os ++ [.up k]) := by
  obtain ⟨p, holds⟩ : ∃ p, s.holder? k = some p :=
    Option.ne_none_iff_exists'.1 fun unheld => holder_none unheld down
  obtain ⟨member, held⟩ := holder_mem holds
  obtain ⟨j, plain⟩ := h.plain p member
  have own : j = k := by
    rw [plain.held, List.mem_singleton] at held
    exact held.symm
  subst own
  have gone := h.unarmed.letGo p []
  rw [plain.outputs] at gone
  have emptied : p.held.filter (· != j) = [] := by simp [plain.held]
  unfold Engine.release
  simp only [holds, emptied, List.isEmpty_nil, if_true]
  unfold endPress
  simp only [plain.rule]
  exact (gone.note (.released p.id)).passing fun q hq => h.plain q (List.mem_of_mem_filter hq)

end Passing

theorem findRule_unmapped (unmapped : ∀ m ∈ rules, k ∉ m.trigger.keys) (s : State) (simultaneous : Bool) :
    findRule rules s k simultaneous = none := by
  refine List.findIdx?_eq_none_iff.2 fun m hm => Bool.eq_false_iff.2 fun reacts => ?_
  exact unmapped m hm ((reactsTo_wants s k simultaneous).key reacts)

namespace Passing

theorem accept (h : Passing s os) (fresh : ∀ p ∈ s.presses, p.id ≤ s.serial)
    (unmapped : ∀ m ∈ rules, k ∉ m.trigger.keys) : Passing (accept rules k s) (os ++ [.down k]) := by
  rw [accept_free h.unarmed.free]
  unfold press
  rw [findRule_unmapped unmapped]
  exact (h.note _).dispatch fresh k s.now

theorem handle (h : Passing s os) (fresh : ∀ p ∈ s.presses, p.id ≤ s.serial) {down : List Key}
    (tracked : ∀ k, k ∈ s.heldLists.flatten ↔ k ∈ down) (i : Input)
    (unmapped : ∀ k, i.key? = some k → ∀ m ∈ rules, k ∉ m.trigger.keys) :
    Passing (handle rules s i) (os ++ i.echo down) := by
  have isDown_iff : ∀ k, s.isDown k = true ↔ k ∈ down := fun k => by
    rw [State.isDown_iff, State.buffered_of_none h.unarmed.free, List.append_nil, tracked]
  cases i with
  | down k _ =>
    simp only [Engine.handle, Input.echo, isDown_iff]
    split
    · rw [List.append_nil]
      exact h.note _
    · exact h.accept fresh (unmapped k rfl)
  | up k _ =>
    simp only [Engine.handle, Input.echo, flushHolding_free h.unarmed.free]
    split
    · rename_i hk
      exact h.release ((tracked k).2 hk) s.now
    · rename_i hk
      rw [List.append_nil, release_none rules (holder_eq_none fun held => hk ((tracked k).1 held))]
      exact h.note _
  | advance _ | take =>
    rw [Input.echo, List.append_nil]
    exact h

end Passing

/-! ## Runs -/

theorem Session.step_down (x : Session) (i : Input) : (x.step rules i).down = i.keysDown x.down := by
  cases i <;> rfl

/-- In a session only keys passed through, and this is all that was ever output. -/
def Session.Passes (x : Session) (sent : List Output) : Prop := ∃ os, Passing x.state os ∧ x.taken ++ os = sent

theorem Session.Passes.step {x : Session} (hx : Reachable rules x) (idle : x.waiting = []) {sent : List Output}
    (h : x.Passes sent) (i : Input) (unmapped : ∀ k, i.key? = some k → ∀ m ∈ rules, k ∉ m.trigger.keys) :
    (x.step rules i).Passes (sent ++ i.echo x.down) := by
  obtain ⟨os, passing, rfl⟩ := h
  cases timed : i.instant? with
  | none =>
    cases i with
    | take =>
      obtain rfl : x.state.output = os := passing.unarmed.output
      exact ⟨[], ⟨{ passing.unarmed with output := rfl }, passing.plain⟩, rfl⟩
    | down _ _ | up _ _ | advance _ => cases timed
  | some instant =>
    have fresh : ∀ p ∈ (x.state.tick instant).presses, p.id ≤ (x.state.tick instant).serial :=
      (hx.tick idle instant).orderly.press_le
    have owned := (hx.tick idle instant).owned idle
    rw [State.buffered_of_none (passing.tick instant).unarmed.free, List.append_nil] at owned
    refine ⟨os ++ i.echo x.down, ?_, ?_⟩
    · rw [Session.step_state, step_timed timed, passing.advanceTo]
      exact (passing.tick instant).handle fresh (fun k => owned.mem_iff) i unmapped
    · rw [Session.step_taken timed, List.append_assoc]

theorem Session.Passes.run {x : Session} (hx : Reachable rules x) (idle : x.waiting = []) {sent : List Output}
    (h : x.Passes sent) (inputs : List Input)
    (unmapped : ∀ i ∈ inputs, ∀ k, i.key? = some k → ∀ m ∈ rules, k ∉ m.trigger.keys) :
    (inputs.foldl (Session.step rules) x).Passes (sent ++ echo x.down inputs) := by
  induction inputs generalizing x sent with
  | nil =>
    rw [echo, List.append_nil]
    exact h
  | cons i inputs ih =>
    obtain ⟨hy, idle'⟩ := hx.step idle i
    have stepped := h.step hx idle i (unmapped i List.mem_cons_self)
    have down : (x.step rules i).down = i.keysDown x.down := x.step_down i
    rw [echo, ← List.append_assoc, ← down]
    exact ih hy idle' stepped fun j hj => unmapped j (List.mem_cons_of_mem _ hj)

/-- Let no trigger have a key that goes down or up. Then after every event the output ever sent is that of a keyboard
without rules: a key that is up goes down, a key that is down goes up, and no more. No flag is set, no delayed action
waits, no lazy key is armed and no key is held back. -/
theorem unmapped_passes (rules : List Manipulator) (inputs : List Input)
    (unmapped : ∀ i ∈ inputs, ∀ k, i.key? = some k → ∀ m ∈ rules, k ∉ m.trigger.keys) :
    ∀ done, done <+: inputs →
      (session rules done).transcript = echo [] done ∧
        (run rules done).flags = [] ∧ (run rules done).pending = [] ∧ (run rules done).armed = [] ∧
        (run rules done).buffer = none := by
  intro done before
  have start : Session.Passes {} [] := ⟨[], ⟨⟨rfl, rfl, rfl, rfl, rfl, rfl⟩, fun _ hp => (nomatch hp)⟩, rfl⟩
  obtain ⟨os, passing, sent⟩ :=
    start.run (.start : Reachable rules {}) rfl done fun i hi => unmapped i (before.subset hi)
  have unarmed := passing.unarmed
  have output := unarmed.output
  rw [show done.foldl (Session.step rules) {} = session rules done from rfl] at unarmed sent output
  rw [session_state] at unarmed
  rw [List.nil_append] at sent
  refine ⟨?_, unarmed.flags, unarmed.pending, unarmed.armed, unarmed.free⟩
  rw [Session.transcript, output]
  exact sent

end

/-- Two keys beside the home-row key and the chord: one repeats, the other one goes down late and up again twice. -/
def keysBeside : List Input := [
  .down keyD 10, .down keyD 20, .down keyE 15, .up keyE 30, .advance 40, .take, .up keyE 50, .down keyE 60,
  .up keyD 500, .up keyE 510]

theorem unmapped_passes_beside :
    (∀ i ∈ keysBeside, ∀ k, i.key? = some k → ∀ m ∈ besideHomeRow, k ∉ m.trigger.keys) ∧
      (session besideHomeRow keysBeside).transcript =
        [.down keyD, .down keyE, .up keyE, .down keyE, .up keyD, .up keyE] := by
  have unmapped : ∀ i ∈ keysBeside, ∀ k, i.key? = some k → ∀ m ∈ besideHomeRow, k ∉ m.trigger.keys := by
    have beside : ∀ i ∈ keysBeside, i.key? = some keyD ∨ i.key? = some keyE ∨ i.key? = none := by decide +kernel
    have free : ∀ k ∈ [keyD, keyE], ∀ m ∈ besideHomeRow, k ∉ m.trigger.keys := by decide +kernel
    intro i hi k hk
    rcases beside i hi with he | he | he <;> rw [he] at hk <;> cases hk
    · exact free keyD (by simp)
    · exact free keyE (by simp)
  refine ⟨unmapped, (unmapped_passes besideHomeRow keysBeside unmapped keysBeside (List.prefix_refl _)).1.trans ?_⟩
  decide +kernel

end KeyRules.Engine
