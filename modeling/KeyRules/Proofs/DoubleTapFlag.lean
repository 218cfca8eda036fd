import KeyRules.Proofs.Engine.FirstTap

/-!
# The flag of a double-tap pattern

The flag is set while the first tap is remembered: its press is in flight or its countdown runs. A press of the same
key that goes to another rule drops the countdown and leaves the flag set, until the next press of the pattern takes it
for a second tap (`double_tap_flag`, `double_tap_flag_stuck`).
-/

namespace KeyRules

open Engine

/-- In an assembled rule set the rules of a pattern alone write its flag. -/
theorem DoubleTap.remembers {r : RuleSet} (assembled : RuleSet.assemble r.groups = .ok r) {d : DoubleTap} {f : Fragment}
    (fragment : d.compile = .ok f) {n : Nat} (placed : r.Places f n) :
    ∃ interval : Millis, interval.toNat = d.interval.toNat ∧ Remembers r.manipulators d interval n := by
  obtain ⟨interval, rfl, ht⟩ := d.compile_ok fragment
  refine ⟨interval, (TimeSetting.check_ok ht).1, placed.get (j := 0) rfl, placed.get (j := 1) rfl, fun j m hj hw => ?_⟩
  have writes : (d.first interval).Writes d.flagInUse :=
    ⟨.setFlag d.flagInUse true, by simp [Manipulator.events, first], rfl⟩
  have own : d.flagInUse ∈ Fragment.writes ⟨"double-tap " ++ d.text, [d.second, d.first interval], some d.flagInUse⟩ :=
    Fragment.mem_writes.2 ⟨d.first interval, by simp, writes⟩
  obtain ⟨k, rfl, hk⟩ := placed.sole_writer assembled own hj hw
  rcases k with _ | _ | k
  · exact .inl rfl
  · exact .inr rfl
  · cases hk

/-- The flag of a pattern is set exactly while its first tap is remembered or after its countdown was dropped; the
delayed action of the first press is there exactly in the first case. After the interval has passed with the key up
only a drop leaves the flag set. A second press begins in these two cases only, and a drop comes from a press of
another rule that has the key. -/
theorem double_tap_flag {r : RuleSet} (compiled : r.Compiled) {d : DoubleTap} {f : Fragment}
    (fragment : d.compile = .ok f) {n : Nat} (placed : r.Places f n) (inputs : List Input) :
    ((run r.manipulators inputs).flag d.flagInUse = true ↔
      lastTap n (run r.manipulators inputs).journal = some .seen ∨
        lastTap n (run r.manipulators inputs).journal = some .dropped) ∧
    ((∃ p ∈ (run r.manipulators inputs).pending, p.rule = n + 1) ↔
      lastTap n (run r.manipulators inputs).journal = some .seen) ∧
    (∀ last, d.key ∉ (session r.manipulators inputs).down →
      (∀ u ∈ (session r.manipulators inputs).releases, u + d.interval.toNat ≤ last) →
      ((run r.manipulators (inputs ++ [.advance last])).flag d.flagInUse = true ↔
        lastTap n (run r.manipulators (inputs ++ [.advance last])).journal = some .dropped)) ∧
    (∀ before press keys instant flags after,
      (run r.manipulators inputs).journal = before ++ .dispatched press keys (some n) instant flags :: after →
      lastTap n before = some .seen ∨ lastTap n before = some .dropped) ∧
    (lastTap n (run r.manipulators inputs).journal = some .dropped →
      ∃ before press keys rule instant flags after,
        (run r.manipulators inputs).journal = before ++ .dispatched press keys rule instant flags :: after ∧
        lastTap n before = some .seen ∧ d.key ∈ keys ∧ rule ≠ some n ∧ rule ≠ some (n + 1)) := by
  obtain ⟨interval, hi, h⟩ := d.remembers compiled.assembled fragment placed
  have flag_iff : ∀ more, (run r.manipulators more).flag d.flagInUse = true ↔
      lastTap n (run r.manipulators more).journal = some .seen ∨
        lastTap n (run r.manipulators more).journal = some .dropped := fun more => by
    have shown := ((reachable_session r.manipulators more).1.remembered h).shown
    rwa [session_state] at shown
  obtain ⟨hx, idle⟩ := reachable_session r.manipulators inputs
  refine ⟨flag_iff inputs, ?_, fun last up past => ?_, fun before press keys instant flags after he => ?_,
    fun dropped => ?_⟩
  · have waits := (hx.remembered h).pending_iff
    rwa [session_state] at waits
  · have hy := (reachable_session r.manipulators (inputs ++ [.advance last])).1
    have hs := session_append r.manipulators inputs (.advance last)
    have fired : ∀ e ∈ (session r.manipulators (inputs ++ [.advance last])).state.timers, last < e.1.instant := by
      rw [hs]
      exact hx.advanceTo_timers idle last
    have unseen := hy.first_over h (by rw [hs]; exact up) fired (by rw [hs, hi]; exact past)
    rw [session_state] at unseen
    exact (flag_iff _).trans (or_iff_right unseen)
  · have fires := h.fires_kept.line he rfl press keys instant flags rfl
    rwa [lastTap_bare] at fires
  · have overruled := hx.overruled h
    rw [session_state] at overruled
    exact (overruled dropped).of_bare

def stuckChord : Chord := ⟨[keyA, keyB], .key keyC [], 50, none⟩

def stuckTap : DoubleTap := ⟨keyA, 200, .key keyD [], none, none⟩

def stuckFragment : Fragment :=
  ⟨"double-tap " ++ stuckTap.text, [stuckTap.second, stuckTap.first 200], some stuckTap.flagInUse⟩

def stuckSet : RuleSet := ⟨[⟨"taps", [⟨"chord " ++ stuckChord.text, [stuckChord.compiled], none⟩, stuckFragment]⟩]⟩

theorem stuckSet_compile : stuckSet.Compiled where
  assembled := rfl
  fragments g hg f hf := by
    obtain rfl := List.mem_singleton.1 hg
    simp only [List.mem_cons, List.not_mem_nil, or_false] at hf
    rcases hf with rfl | rfl
    · exact ⟨.chord stuckChord, rfl⟩
    · exact ⟨.doubleTap stuckTap, rfl⟩

/-- The key is tapped, and within the interval it goes down with `b`. -/
def stuckInputs : List Input := [.down keyA 0, .up keyA 10, .down keyA 100, .down keyB 110]

theorem stuckSet_places : stuckSet.Places stuckFragment 1 :=
  ⟨[⟨"chord " ++ stuckChord.text, [stuckChord.compiled], none⟩], [], rfl, rfl⟩

/-- The chord drops the countdown, and the flag stays. -/
theorem double_tap_flag_stuck :
    stuckTap.compile = .ok stuckFragment ∧ stuckSet.Places stuckFragment 1 ∧
    (run stuckSet.manipulators stuckInputs).flag stuckTap.flagInUse = true ∧
    ¬(∃ p ∈ (run stuckSet.manipulators stuckInputs).pending, p.rule = 2) ∧
    lastTap 1 (run stuckSet.manipulators stuckInputs).journal = some .dropped ∧
    ∃ before press keys rule instant flags after,
      (run stuckSet.manipulators stuckInputs).journal = before ++ .dispatched press keys rule instant flags :: after ∧
      lastTap 1 before = some .seen ∧ keyA ∈ keys ∧ rule ≠ some 1 ∧ rule ≠ some 2 := by
  have dropped : lastTap 1 (run stuckSet.manipulators stuckInputs).journal = some .dropped := rfl
  obtain ⟨flag, waits, -, -, overruled⟩ :=
    double_tap_flag stuckSet_compile (d := stuckTap) rfl stuckSet_places stuckInputs
  refine ⟨rfl, stuckSet_places, flag.2 (.inr dropped), fun pending => ?_, dropped, overruled dropped⟩
  rw [waits.1 pending] at dropped
  cases dropped

/-- So the flag does not always tell whether the delayed action of the first press waits. -/
theorem double_tap_flag_without_action :
    ¬∀ (r : RuleSet) (d : DoubleTap) (f : Fragment) (n : Nat) (inputs : List Input), r.Compiled →
      d.compile = .ok f → r.Places f n →
      ((run r.manipulators inputs).flag d.flagInUse = true ↔
        ∃ p ∈ (run r.manipulators inputs).pending, p.rule = n + 1) := by
  intro h
  have set : (run stuckSet.manipulators stuckInputs).flag stuckTap.flagInUse = true := rfl
  obtain ⟨p, hp, -⟩ := (h stuckSet stuckTap stuckFragment 1 stuckInputs stuckSet_compile rfl stuckSet_places).1 set
  have none_left : (run stuckSet.manipulators stuckInputs).pending = [] := rfl
  rw [none_left] at hp
  cases hp

end KeyRules
