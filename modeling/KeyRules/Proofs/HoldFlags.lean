import KeyRules.Proofs.Engine.Indicators

/-!
# Flags of tap-hold keys and layers

The flag of a tap-hold key or of a layer that its key holds on is set exactly while a press of the key is in flight
whose hold has begun (`hold_flag_exact`).
-/

namespace KeyRules

open Engine

/-- The flag that shows the holds of a binding. -/
def Binding.holdFlag? : Binding → Option Flag
  | tapHold b => b.flag
  | layer l => if l.mode = .hold then some l.flag else none
  | _ => none

/-- The hold begins with the press, not with the hold timer. -/
def Binding.holdsAtPress : Binding → Bool
  | tapHold b => decide (b.priority = .holdFirst)
  | _ => true

/-! ## What the events write -/

theorem lastWrite_haltFirst (f : Flag) (es : List Event) : lastWrite f (TapHold.haltFirst es) = lastWrite f es := by
  cases es with
  | nil => rfl
  | cons e es =>
    rw [TapHold.haltFirst, lastWrite_cons, lastWrite_cons]
    cases e <;> rfl

theorem lastWrite_setFlag (f : Flag) (value : Bool) : lastWrite f [.setFlag f value] = some value := by
  simp [lastWrite, write?]

/-- The last write counts. -/
theorem lastWrite_then_set (f : Flag) (value : Bool) (es : List Event) :
    lastWrite f (es ++ [.setFlag f value]) = some value := by
  rw [lastWrite_append, lastWrite_setFlag]
  rfl

theorem Manipulator.Writes.of_release {m : Manipulator} {f : Flag} (h : lastWrite f m.onRelease = some false) :
    m.Writes f := by
  by_contra hn
  have quiet : lastWrite f m.onRelease = none :=
    lastWrite_eq_none fun e he hf => hn ⟨e, Stage.release.events_subset m he, hf⟩
  rw [quiet] at h
  cases h

theorem TapHold.clears {b : TapHold} {flag : Flag} (owned : b.flag = some flag) (timeout : Millis) :
    lastWrite flag (b.manipulator timeout).onRelease = some false := by
  have same : (b.manipulator timeout).onRelease = writeFlag b.flag false := by
    unfold manipulator
    cases b.priority <;> rfl
  rw [same, owned]
  exact lastWrite_setFlag flag false

theorem TapHold.writes_flag {b : TapHold} {flag : Flag} (owned : b.flag = some flag) (timeout : Millis) :
    (b.manipulator timeout).Writes flag := .of_release (b.clears owned timeout)

theorem Layer.activation_writes (l : Layer) : l.activation.Writes l.flag :=
  .of_release (lastWrite_setFlag l.flag false)

section
variable {rules : List Manipulator} {flag : Flag} {i : Nat}

theorem TapHold.indicates {b : TapHold} (owned : b.flag = some flag) {timeout : Millis}
    (placed : rules[i]? = some (b.manipulator timeout))
    (sole : ∀ j n, rules[j]? = some n → n.Writes flag → j = i) :
    Indicates rules flag i (b.manipulator timeout) (Binding.tapHold b).holdsAtPress := by
  have set : ∀ value, writeFlag b.flag value = [.setFlag flag value] := fun value => by rw [owned]; rfl
  cases hp : b.priority with
  | tapFirst =>
    have hm : b.manipulator timeout = b.tapFirst timeout := by rw [manipulator, hp]
    have late : (Binding.tapHold b).holdsAtPress = false := by rw [Binding.holdsAtPress, hp]; rfl
    rw [hm] at placed ⊢
    rw [late]
    exact {
      placed := placed
      single := ⟨b.key, true, rfl⟩
      press := rfl
      hold := by
        simp only [tapFirst, set]
        exact lastWrite_then_set flag true _
      tap := (lastWrite_haltFirst flag _).trans (lastWrite_events flag _ false)
      release := hm ▸ b.clears owned timeout
      invoked := lastWrite_events flag _ false
      canceled := lastWrite_events flag _ false
      released := fun h => (Bool.false_ne_true h).elim
      sole := sole }
  | holdFirst =>
    have hm : b.manipulator timeout = b.holdFirst timeout := by rw [manipulator, hp]
    have early : (Binding.tapHold b).holdsAtPress = true := by rw [Binding.holdsAtPress, hp]; rfl
    rw [hm] at placed ⊢
    rw [early]
    exact {
      placed := placed
      single := ⟨b.key, true, rfl⟩
      press := by
        simp only [holdFirst, set]
        exact lastWrite_then_set flag true _
      hold := rfl
      tap := lastWrite_events flag _ false
      release := hm ▸ b.clears owned timeout
      invoked := rfl
      canceled := rfl
      released := fun _ => b.tap.eventsWith_halting false
      sole := sole }

theorem Layer.indicates {l : Layer} (placed : rules[i]? = some l.activation)
    (sole : ∀ j n, rules[j]? = some n → n.Writes l.flag → j = i) :
    Indicates rules l.flag i l.activation true where
  placed := placed
  single := ⟨l.key, true, rfl⟩
  press := lastWrite_setFlag l.flag true
  hold := rfl
  tap := lastWrite_events l.flag (.key l.key []) false
  release := lastWrite_setFlag l.flag false
  invoked := rfl
  canceled := rfl
  released _ := (Action.key l.key []).eventsWith_halting false
  sole := sole

end

theorem Layer.gated_writes (l : Layer) (b : Key × Action) (f : Flag) : ¬(l.gated b).Writes f := by
  rintro ⟨e, he, hf⟩
  have he : e ∈ b.2.events := by simpa [Manipulator.events, gated] using he
  rw [b.2.eventsWith_flag false e he] at hf
  cases hf

/-- In an assembled rule set the flag shows the holds of the first rule of its fragment. -/
theorem Binding.indicates {r : RuleSet} (assembled : RuleSet.assemble r.groups = .ok r) {b : Binding} {f : Fragment}
    (compiled : b.compile = .ok f) {n : Nat} (placed : r.Places f n) {flag : Flag} (shows : b.holdFlag? = some flag) :
    ∃ m, Indicates r.manipulators flag n m b.holdsAtPress := by
  cases b with
  | tapHold b =>
    obtain ⟨timeout, rfl, -⟩ := b.compile_ok compiled
    have owned : b.flag = some flag := shows
    have hm : r.manipulators[n]? = some (b.manipulator timeout) := placed.get (j := 0) rfl
    refine ⟨_, TapHold.indicates owned hm fun j m hj hw => ?_⟩
    have own : b.manipulator timeout ∈ [b.manipulator timeout] := List.mem_singleton.2 rfl
    obtain ⟨k, rfl, hk⟩ :=
      placed.sole_writer assembled (Fragment.mem_writes.2 ⟨_, own, b.writes_flag owned timeout⟩) hj hw
    cases k with
    | zero => rfl
    | succ k => cases hk
  | layer l =>
    obtain ⟨ms, rfl, hms⟩ := l.compile_ok compiled
    simp only [holdFlag?] at shows
    split at shows
    · rename_i mode
      obtain rfl := Option.some.inj shows
      rw [Layer.manipulators, mode] at hms
      obtain rfl := Except.ok.inj hms
      have hm : r.manipulators[n]? = some l.activation := placed.get (j := 0) rfl
      refine ⟨_, l.indicates hm fun j m hj hw => ?_⟩
      have own : l.flag ∈ Fragment.writes ⟨l.text, l.activation :: l.bindings.map l.gated, some l.flag⟩ :=
        Fragment.mem_writes.2 ⟨l.activation, List.mem_cons_self, l.activation_writes⟩
      obtain ⟨k, rfl, hk⟩ := placed.sole_writer assembled own hj hw
      cases k with
      | zero => rfl
      | succ k =>
        obtain ⟨b, -, rfl⟩ := List.mem_map.1 (List.mem_of_getElem? hk)
        exact (l.gated_writes b _ hw).elim
    · cases shows
  | chord c => cases shows
  | doubleTap d => cases shows

/-- In every state of a run the flag of a tap-hold key or of a layer held on is set exactly if a press of the key is in
flight whose hold has begun: at once for a hold-first key and a layer, with the hold timer for a tap-first key. So it
is clear when no key is down. -/
theorem hold_flag_exact {r : RuleSet} (compiled : r.Compiled) {b : Binding} {f : Fragment}
    (fragment : b.compile = .ok f) {n : Nat} (placed : r.Places f n) {flag : Flag}
    (shows : b.holdFlag? = some flag) (inputs : List Input) :
    ((run r.manipulators inputs).flag flag = true ↔
      ∃ p ∈ (run r.manipulators inputs).presses, p.rule = some n ∧ (b.holdsAtPress || p.holdFired) = true) ∧
    ((session r.manipulators inputs).down = [] → (run r.manipulators inputs).flag flag = false) := by
  obtain ⟨m, h⟩ := b.indicates compiled.assembled fragment placed shows
  have hx := (reachable_session r.manipulators inputs).1
  have exact := hx.shown h
  rw [session_state] at exact
  refine ⟨exact, fun up => Bool.eq_false_iff.2 fun set => ?_⟩
  obtain ⟨p, hp, -⟩ := exact.1 set
  have none_left := hx.tracked.presses_nil up
  rw [session_state] at none_left
  rw [none_left] at hp
  cases hp

def shownKey : TapHold := ⟨keyA, .key keyA [], .combination .meh, 200, .tapFirst, some ⟨"mods"⟩, none⟩

def shownFragment : Fragment := ⟨"tap-hold " ++ shownKey.text, [shownKey.manipulator 200], shownKey.flag⟩

def shownSet : RuleSet := ⟨[⟨"home row", [shownFragment]⟩]⟩

theorem shownSet_compile : shownSet.Compiled where
  assembled := rfl
  fragments g hg f hf := by
    obtain rfl := List.mem_singleton.1 hg
    obtain rfl := List.mem_singleton.1 hf
    exact ⟨.tapHold shownKey, rfl⟩

/-- The key is held past its timeout, and the flag is set. -/
theorem hold_flag_exact_shown :
    (run shownSet.manipulators [.down keyA 0, .advance 300]).flag ⟨"mods"⟩ = true ∧
    (Binding.tapHold shownKey).compile = .ok shownFragment ∧ shownSet.Places shownFragment 0 ∧
    (Binding.tapHold shownKey).holdFlag? = some ⟨"mods"⟩ ∧
    ((run shownSet.manipulators [.down keyA 0, .advance 300]).flag ⟨"mods"⟩ = true ↔
      ∃ p ∈ (run shownSet.manipulators [.down keyA 0, .advance 300]).presses,
        p.rule = some 0 ∧ ((Binding.tapHold shownKey).holdsAtPress || p.holdFired) = true) ∧
    ((session shownSet.manipulators [.down keyA 0, .advance 300]).down = [] →
      (run shownSet.manipulators [.down keyA 0, .advance 300]).flag ⟨"mods"⟩ = false) :=
  ⟨rfl, rfl, ⟨[], [], rfl, rfl⟩, rfl, hold_flag_exact shownSet_compile (b := .tapHold shownKey) rfl
    ⟨[], [], rfl, rfl⟩ rfl [.down keyA 0, .advance 300]⟩

end KeyRules
