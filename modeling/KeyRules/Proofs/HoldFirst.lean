import KeyRules.Proofs.Engine.LazyHold

/-!
# Hold-first presses

A hold-first binding arms its modifier when the press begins and adds the tap when it ends early and undisturbed. What
disturbs a press is another press. A key that goes out without one, from the delayed action of a press that has ended
before, takes the modifier along and leaves the tap.
-/

namespace KeyRules

open Engine

/-- A hold-first binding with a modifier arms one stroke and writes its flag. -/
theorem TapHold.starts_lazily {b : TapHold} (modifier : b.holdsModifier = true) (timeout : Millis) :
    startsLazily (b.holdFirst timeout) := by
  unfold holdsModifier at modifier
  cases hold : b.hold with
  | key k ms =>
    rw [hold] at modifier
    have hk : k.isModifier = true := by simpa [Action.primaryKey?] using modifier
    refine ⟨⟨k, ms, true, false⟩, writeFlag b.flag true, ?_, rfl, mem_writeFlag _ _⟩
    simp [holdFirst, hold, Action.lazyEvents, Action.eventsWith, hk]
  | combination name =>
    obtain ⟨k, hk⟩ := Option.isSome_iff_exists.1 (Action.carrier_isSome name)
    refine ⟨⟨k, name.expand.tail, true, false⟩, writeFlag b.flag true, ?_, rfl, mem_writeFlag _ _⟩
    simp [holdFirst, hold, Action.lazyEvents, Action.eventsWith, hk]
  | paste text =>
    rw [hold] at modifier
    cases modifier

theorem TapHold.holdsLazily {rules : List Manipulator} {b : TapHold} (first : b.priority = .holdFirst)
    (modifier : b.holdsModifier = true) {i : Nat} (placed : rules[i]? = some b.compiled) :
    HoldsLazily rules i b.compiled := by
  have hc : b.compiled = b.holdFirst (UInt32.ofNat b.timeout.toNat) := by
    unfold compiled manipulator
    rw [first]
  refine ⟨placed, ?_, ?_, ?_⟩
  · rw [hc]
    rfl
  · rw [hc]
    rfl
  · rw [hc]
    exact starts_lazily modifier _

/-- If a press of a hold-first binding with a modifier is tapped, its modifier was sent exactly if a delayed action that
ran out during the press sent a key that is no modifier. -/
theorem holdFirst_modifier_sent_iff {r : RuleSet} (compiled : r.Compiled) {b : TapHold}
    (first : b.priority = .holdFirst) (modifier : b.holdsModifier = true) {i : Nat}
    (placed : r.manipulators[i]? = some b.compiled) (inputs : List Input) {press : Nat}
    (tapped : .emitted press i .tap ∈ (run r.manipulators inputs).journal) :
    ∃ earlier keys instant flags during after,
      (run r.manipulators inputs).journal =
        earlier ++ .dispatched press keys (some i) instant flags :: (during ++ .released press :: after) ∧
      ((∃ ks, .applied press ks ∈ (run r.manipulators inputs).journal) ↔
        ∃ other rule, .emitted other rule .invoked ∈ during ∧
          (eventsOf r.manipulators rule onInvoked).any takesAlong = true) := by
  have hx := (reachable_session r.manipulators inputs).1
  have hl := hx.lazily (b.holdsLazily first modifier placed) fun m hm => (compiled.manipulator m hm).release_flags
  rw [session_state] at hl
  obtain ⟨-, -, during, between, clear⟩ := hl.tapped press (List.mem_filter.2 ⟨tapped, rfl⟩)
  obtain ⟨whole, ⟨earlier, keys, instant, flags, after, lines⟩, rfl⟩ := between.full
  refine ⟨earlier, keys, instant, flags, whole, after, lines, ?_⟩
  rw [← mem_appliedTo]
  exact clear.sent_iff.trans takenAlong_bare

/-! ## A delayed tap during the press -/

def hastyKey : TapHold := ⟨keyB, .key keyB [], .combination .meh, 50, .tapFirst, none, none⟩

def leftControl : Key := ⟨⟨65, by decide +kernel⟩⟩

def controlKey : TapHold := ⟨keyA, .key keyA [], .key leftControl [], 500, .holdFirst, none, none⟩

def rolledKeys : RuleSet := ⟨[⟨"home row", [
  ⟨"tap-hold " ++ hastyKey.text, [hastyKey.compiled], none⟩,
  ⟨"tap-hold " ++ controlKey.text, [controlKey.compiled], none⟩]⟩]⟩

theorem rolledKeys_compiled : rolledKeys.Compiled where
  assembled := rfl
  fragments := by
    intro g hg f hf
    obtain rfl := List.mem_singleton.1 hg
    simp only [List.mem_cons, List.not_mem_nil, or_false] at hf
    rcases hf with rfl | rfl
    · exact ⟨.tapHold hastyKey, rfl⟩
    · exact ⟨.tapHold controlKey, rfl⟩

/-- The key `b` goes up during the press of `a`, and its tap goes out before `a` goes up. -/
def rolledOff : List Input :=
  [.down keyB 0, .down keyA 10, .up keyB 20, .advance 70, .up keyA 100]

theorem rolledOff_tapped : .emitted 3 1 .tap ∈ (run rolledKeys.manipulators rolledOff).journal := by
  decide +kernel

theorem holdFirst_modifier_sent_iff_rolled :
    .emitted 3 1 .tap ∈ (run rolledKeys.manipulators rolledOff).journal ∧
    ∃ earlier keys instant flags during after,
      (run rolledKeys.manipulators rolledOff).journal =
        earlier ++ .dispatched 3 keys (some 1) instant flags :: (during ++ .released 3 :: after) ∧
      ((∃ ks, .applied 3 ks ∈ (run rolledKeys.manipulators rolledOff).journal) ↔
        ∃ other rule, .emitted other rule .invoked ∈ during ∧
          (eventsOf rolledKeys.manipulators rule onInvoked).any takesAlong = true) :=
  ⟨rolledOff_tapped,
    holdFirst_modifier_sent_iff rolledKeys_compiled rfl (by decide +kernel) rfl rolledOff rolledOff_tapped⟩

/-- So a press can be tapped and held. -/
theorem holdFirst_tapped_and_held :
    ¬∀ (r : RuleSet) (b : TapHold) (f : Fragment) (i : Nat) (inputs : List Input) (press : Nat), r.Compiled →
      b.compile = .ok f → b.priority = .holdFirst → b.holdsModifier = true →
      r.manipulators[i]? = some b.compiled → .emitted press i .tap ∈ (run r.manipulators inputs).journal →
      ∀ ks, .applied press ks ∉ (run r.manipulators inputs).journal := by
  intro h
  refine h rolledKeys controlKey _ 1 rolledOff 3 rolledKeys_compiled rfl rfl (by decide +kernel) rfl rolledOff_tapped
    [leftControl] ?_
  decide +kernel

end KeyRules
