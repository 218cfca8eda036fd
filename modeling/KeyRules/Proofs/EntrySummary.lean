import KeyRules.Proofs.LayerFlag

/-!
# Summaries of compiled bindings

The summary of a fragment is that of its entry, the first manipulator that does not wait for the fragment's own flag.
For a tap-hold key, a chord and a layer opened by a simultaneous press it says what the binding says. Both manipulators
of a double tap test its own flag, so there the second press passes for the entry: the summary has no time, and it is
gated on the own flag (`summary_describes`).
-/

namespace KeyRules

/-! ## Entries -/

namespace Fragment

variable {f : Fragment} {m : Manipulator}

/-- Follow-ups do not hide the entry. -/
theorem entry_after (followUps : List Manipulator) {rest : List Manipulator}
    (parts : f.manipulators = followUps ++ m :: rest) (waiting : ∀ n ∈ followUps, f.isFollowUp n = true)
    (free : f.isFollowUp m = false) : f.entry? = some m := by
  have passed : followUps.find? (fun n => !f.isFollowUp n) = none :=
    List.find?_eq_none.2 fun n hn => by simp [waiting n hn]
  have first : f.manipulators.find? (fun n => !f.isFollowUp n) = some m := by
    rw [parts, List.find?_append, passed, Option.none_or, List.find?_cons, free]
    rfl
  unfold entry?
  rw [first]
  rfl

/-- Where all are follow-ups, the first one passes for the entry. -/
theorem entry_of_followUps (waiting : ∀ n ∈ f.manipulators, f.isFollowUp n = true) :
    f.entry? = f.manipulators.head? := by
  have passed : f.manipulators.find? (fun n => !f.isFollowUp n) = none :=
    List.find?_eq_none.2 fun n hn => by simp [waiting n hn]
  unfold entry?
  rw [passed]
  rfl

/-- An only manipulator is the entry, whatever it waits for. -/
theorem entry_single (parts : f.manipulators = [m]) : f.entry? = some m := by
  cases waits : f.isFollowUp m with
  | false => exact entry_after [] parts (fun _ hn => (nomatch hn)) waits
  | true =>
    rw [entry_of_followUps fun n hn => ?_, parts]
    · rfl
    · rw [parts, List.mem_singleton] at hn
      rwa [hn]

end Fragment

/-! ## What a binding says of itself -/

namespace Binding

def entryKeys : Binding → List Key
  | tapHold b => [b.key]
  | chord c => c.keys
  | doubleTap d => [d.key]
  | layer l => [l.key]

/-- The time that decides about a binding; a layer in hold mode has none. -/
def time? : Binding → Option Int
  | tapHold b => some b.timeout
  | chord c => some c.window
  | doubleTap d => some d.interval
  | layer l =>
    match l.mode with
    | .hold => none
    | .simultaneous threshold => some threshold

/-- The flag that a binding is explicitly gated on. -/
def gate? : Binding → Option Flag
  | tapHold b => b.gate
  | chord c => c.gate
  | doubleTap _ | layer _ => none

/-- A layer binds a key other than its activation key. -/
def Enters : Binding → Prop
  | layer l => l.openerBindings ≠ []
  | tapHold _ | chord _ | doubleTap _ => True

end Binding

/-- A summary says of an entry what the binding says. -/
structure Summary.Describes (s : Summary) (b : Binding) : Prop where
  trigger : ∀ k ∈ b.entryKeys, k ∈ s.trigger.keys
  window : s.window.map (fun w => (w.toNat : Int)) = b.time?
  gating : s.gatingFlag = b.gate?

theorem TimeSetting.check_eq {setting : TimeSetting} {value : Int} {time : Millis}
    (h : setting.check value = .ok time) : (time.toNat : Int) = value := by
  obtain ⟨same, positive, -⟩ := check_ok h
  omega

theorem TapHold.gatesOn_head (gate : Option Flag) : ((gatesOn gate).map (·.flag)).head? = gate := by
  cases gate <;> rfl

theorem TapHold.described {b : TapHold} {f : Fragment} (compiled : b.compile = .ok f) :
    ∃ s, f.summary? = some s ∧ s.Describes (.tapHold b) := by
  obtain ⟨timeout, rfl, checked, -⟩ := b.compile_ok compiled
  rw [Fragment.summary?, Fragment.entry_single rfl]
  refine ⟨_, rfl, ?_⟩
  unfold manipulator
  cases b.priority with
  | tapFirst => exact ⟨fun _ hk => hk, congrArg some (TimeSetting.check_eq checked), gatesOn_head b.gate⟩
  | holdFirst => exact ⟨fun _ hk => hk, congrArg some (TimeSetting.check_eq checked), gatesOn_head b.gate⟩

theorem Chord.described {c : Chord} {f : Fragment} (compiled : c.compile = .ok f) :
    ∃ s, f.summary? = some s ∧ s.Describes (.chord c) := by
  obtain ⟨window, rfl, checked, -⟩ := c.compile_ok compiled
  rw [Fragment.summary?, Fragment.entry_single rfl]
  exact ⟨_, rfl, fun _ hk => hk, congrArg some (TimeSetting.check_eq checked), TapHold.gatesOn_head c.gate⟩

/-- The first opener is the entry: the bindings before it all wait for the flag of the layer. -/
theorem Layer.described {l : Layer} {threshold : Int} (mode : l.mode = .simultaneous threshold)
    (opened : l.openerBindings ≠ []) {f : Fragment} (compiled : l.compile = .ok f) :
    ∃ s, f.summary? = some s ∧ s.Describes (.layer l) := by
  obtain ⟨ms, rfl, hms⟩ := l.compile_ok compiled
  obtain ⟨window, checked, rfl⟩ := l.manipulators_simultaneous mode hms
  obtain ⟨b, others, hb⟩ := List.exists_cons_of_ne_nil opened
  have entry : Fragment.entry? ⟨l.text, l.bindings.map l.gated ++ l.openerBindings.map (l.opener window), some l.flag⟩ =
      some (l.opener window b) := by
    have parts : l.bindings.map l.gated ++ l.openerBindings.map (l.opener window) =
        l.bindings.map l.gated ++ l.opener window b :: others.map (l.opener window) := by
      rw [hb, List.map_cons]
    refine Fragment.entry_after (l.bindings.map l.gated) parts (fun m hm => ?_) rfl
    obtain ⟨binding, -, rfl⟩ := List.mem_map.1 hm
    simp [Fragment.isFollowUp, gated, Gate.whenSet]
  rw [Fragment.summary?, entry]
  refine ⟨_, rfl, ?_, ?_, rfl⟩
  · intro k hk
    rw [List.mem_singleton.1 hk]
    exact List.mem_cons_self
  · rw [Binding.time?, mode]
    exact congrArg some (TimeSetting.check_eq checked)

/-- Both manipulators of a double tap test its own flag, so the second press passes for the entry. -/
theorem DoubleTap.summary_second {d : DoubleTap} {f : Fragment} (compiled : d.compile = .ok f) :
    ∃ s, f.summary? = some s ∧ s.trigger = .ofKey d.key ∧ s.window = none ∧ s.gatingFlag = f.ownedFlag ∧
      f.ownedFlag = some d.flagInUse := by
  obtain ⟨interval, rfl, -⟩ := d.compile_ok compiled
  have entry : Fragment.entry? ⟨"double-tap " ++ d.text, [d.second, d.first interval], some d.flagInUse⟩ =
      some d.second := by
    refine Fragment.entry_of_followUps fun m hm => ?_
    simp only [List.mem_cons, List.not_mem_nil, or_false] at hm
    rcases hm with rfl | rfl
    · simp [Fragment.isFollowUp, second, Gate.whenSet]
    · simp [Fragment.isFollowUp, first, Gate.whenClear]
  rw [Fragment.summary?, entry]
  exact ⟨_, rfl, rfl, rfl, rfl, rfl⟩

theorem describes_other {b : Binding} {f : Fragment} (compiled : b.compile = .ok f) (timed : b.time?.isSome = true)
    (enters : b.Enters) (other : ∀ d, b ≠ .doubleTap d) : ∃ s, f.summary? = some s ∧ s.Describes b := by
  cases b with
  | tapHold b => exact b.described compiled
  | chord c => exact c.described compiled
  | doubleTap d => exact (other d rfl).elim
  | layer l =>
    cases mode : l.mode with
    | hold =>
      rw [Binding.time?, mode] at timed
      cases timed
    | simultaneous threshold => exact l.described mode enters compiled

/-- A binding that compiles has a summary, which describes it exactly if it is no double tap: the trigger has its keys,
the window is its own time, and the gate is its own, none where it has none. The summary of a double tap has its key,
no time, and the flag that the fragment owns for a gate. -/
theorem summary_describes {b : Binding} {f : Fragment} (compiled : b.compile = .ok f) (timed : b.time?.isSome = true)
    (enters : b.Enters) :
    ∃ s, f.summary? = some s ∧ (s.Describes b ↔ ∀ d, b ≠ .doubleTap d) ∧
      ∀ d, b = .doubleTap d →
        s.trigger = .ofKey d.key ∧ s.window = none ∧ s.gatingFlag = f.ownedFlag ∧ f.ownedFlag = some d.flagInUse := by
  by_cases double : ∃ d, b = .doubleTap d
  · obtain ⟨d, rfl⟩ := double
    obtain ⟨s, hs, second⟩ := d.summary_second compiled
    refine ⟨s, hs, iff_of_false ?_ fun other => other d rfl, fun _ same => ?_⟩
    · intro describes
      have timeless := describes.window
      rw [second.2.1] at timeless
      cases timeless
    · obtain rfl := Binding.doubleTap.inj same
      exact second
  · have other : ∀ d, b ≠ .doubleTap d := fun d same => double ⟨d, same⟩
    obtain ⟨s, hs, describes⟩ := describes_other compiled timed enters other
    exact ⟨s, hs, iff_of_true describes other, fun d same => (other d same).elim⟩

/-- The bindings of the layer wait for its flag, and its summary is that of an opener. -/
theorem summary_describes_simLayer : ∃ s, simFragment.summary? = some s ∧ s.Describes (.layer simLayer) := by
  have compiled : (Binding.layer simLayer).compile = .ok simFragment := rfl
  obtain ⟨s, hs, describes, -⟩ := summary_describes compiled rfl (by decide +kernel : simLayer.openerBindings ≠ [])
  exact ⟨s, hs, describes.2 fun _ same => by cases same⟩

def twice : DoubleTap := ⟨keyA, 200, .key keyB [], none, none⟩

def twiceFragment : Fragment :=
  ⟨"double-tap " ++ twice.text, [twice.second, twice.first 200], some twice.flagInUse⟩

/-- Its summary has no time, and it is gated on the flag of the double tap itself. -/
theorem summary_misses_double_tap :
    ¬∀ (b : Binding) (f : Fragment), b.compile = .ok f → b.time?.isSome = true → b.Enters →
      ∃ s, f.summary? = some s ∧ s.Describes b := by
  intro h
  have compiled : (Binding.doubleTap twice).compile = .ok twiceFragment := rfl
  have summary : twiceFragment.summary? =
      some ⟨"double-tap " ++ twice.text, .ofKey keyA, [], [], [], none, some twice.flagInUse⟩ := by
    decide +kernel
  obtain ⟨s, hs, describes⟩ := h _ _ compiled rfl trivial
  obtain rfl := Option.some.inj (summary.symm.trans hs)
  cases describes.window

end KeyRules
