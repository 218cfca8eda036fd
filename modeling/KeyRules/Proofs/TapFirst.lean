import KeyRules.Proofs.Compiled
import KeyRules.Proofs.Engine.Chronicle
import KeyRules.Proofs.Engine.Exclusive

/-!
# Tap-first presses

The tap of a tap-first binding goes out on three ways: at an early release, when the countdown of the delayed tap
ends, or when another key cancels it. The hold goes out on one. A press takes at most one of the four, and it takes
one unless its own key goes down again while the delayed tap counts down: then the tap is lost.
-/

namespace KeyRules

open Engine

/-! ## The compiled binding -/

theorem halts_haltFirst {a : Action} (h : a.isPaste = false) (isLazy : Bool) (more : List Event) :
    halts (TapHold.haltFirst (a.eventsWith isLazy) ++ more) = true := by
  obtain ⟨s, hs⟩ := a.eventsWith_stroke h isLazy
  rw [hs]
  rfl

/-- The tap and the hold of a tap-first binding are final, and it has a delayed tap. -/
theorem TapHold.decisive {b : TapHold} {f : Fragment} (compiled : b.compile = .ok f)
    (first : b.priority = .tapFirst) {m : Manipulator} (own : m ∈ f.manipulators) : Decisive m := by
  obtain ⟨timeout, rfl, -, tap, hold⟩ := b.compile_ok compiled
  rw [List.mem_singleton.1 own, manipulator, first]
  refine ⟨rfl, ?_, halts_haltFirst hold true _⟩
  have h := halts_haltFirst tap false []
  rw [List.append_nil] at h
  exact h

/-- A home-row key: tapped it is `a`, held it is a combination of modifiers. -/
def homeRow : TapHold where
  key := keyA
  tap := .key keyA []
  hold := .combination .meh
  timeout := 200
  priority := .tapFirst

theorem homeRow_compile :
    homeRow.compile = .ok ⟨"tap-hold " ++ homeRow.text, [homeRow.manipulator 200], none⟩ := rfl

/-! ## Outcomes -/

/-- A press of a tap-first binding in any rule list sends its tap or its hold, together at most once. It sends the
hold only if no press began after it, and the tap only once it has ended. -/
theorem tapFirst_one_outcome {rules : List Manipulator} (inputs : List Input) {b : TapHold} {f : Fragment}
    (compiled : b.compile = .ok f) (first : b.priority = .tapFirst) {m : Manipulator}
    (own : m ∈ f.manipulators) {i : Nat} (placed : rules[i]? = some m) (press : Nat) :
    (taps i (run rules inputs).journal).count press + (holds i (run rules inputs).journal).count press ≤ 1 ∧
    (∀ before after, (run rules inputs).journal = before ++ .emitted press i .hold :: after →
      ∃ earlier keys instant flags later,
        before = earlier ++ .dispatched press keys (some i) instant flags :: later ∧
        ∀ other keys rule instant flags, .dispatched other keys rule instant flags ∉ later) ∧
    (∀ before stage after, stage.isTapping = true →
      (run rules inputs).journal = before ++ .emitted press i stage :: after → .released press ∈ before) := by
  have hr := (reachable_session rules inputs).1.chronicled
  rw [session_state] at hr
  refine ⟨?_, fun before after he => ?_, fun before stage after tapping he => ?_⟩
  · have hs := settled_once inputs placed (b.decisive compiled first own) press
    rw [(settlements_perm i _).count_eq, List.count_append, List.count_append] at hs
    omega
  · obtain ⟨c, hc, rfl, hrule⟩ := hr.sound he rfl
    obtain ⟨earlier, instant, flags, later, rfl, quiet⟩ := last_beginning hc
    rw [hrule]
    refine ⟨earlier, c.keys, instant, flags, later, rfl, fun other keys rule instant flags hm => ?_⟩
    have hn := List.filterMap_eq_nil_iff.1 quiet _ hm
    cases hn
  · have hs := hr.sound he rfl
    cases stage <;> first | exact hs | cases tapping

/-- A quick press is tapped once. -/
theorem tapFirst_one_outcome_quick :
    taps 0 (run [homeRow.manipulator 200] [.down homeRow.key 0, .up homeRow.key 50]).journal = [1] ∧
    (taps 0 (run [homeRow.manipulator 200] [.down homeRow.key 0, .up homeRow.key 50]).journal).count 1 +
      (holds 0 (run [homeRow.manipulator 200] [.down homeRow.key 0, .up homeRow.key 50]).journal).count 1 ≤ 1 :=
  ⟨rfl, (tapFirst_one_outcome _ homeRow_compile rfl (List.mem_singleton.2 rfl) rfl 1).1⟩

/-! ## Rule sets of tap-first bindings -/

/-- Tap-first bindings on distinct keys and without gates are rules with keys of their own. -/
theorem exclusive_tapFirst {bs : List TapHold} (first : ∀ b ∈ bs, b.priority = .tapFirst)
    (ungated : ∀ b ∈ bs, b.gate = none) (distinct : (bs.map (·.key)).Nodup) :
    Exclusive (bs.map TapHold.compiled) := by
  have hc : ∀ b ∈ bs, b.compiled.trigger = .ofKey b.key ∧ b.compiled.gates = [] := by
    intro b hb
    rw [TapHold.compiled, TapHold.manipulator, first b hb]
    exact ⟨rfl, by simp [TapHold.tapFirst, TapHold.gatesOn, ungated b hb]⟩
  refine ⟨fun m hm => ?_, fun m hm => ?_, ?_⟩
  · obtain ⟨b, hb, rfl⟩ := List.mem_map.1 hm
    exact ⟨b.key, (hc b hb).1⟩
  · obtain ⟨b, hb, rfl⟩ := List.mem_map.1 hm
    exact (hc b hb).2
  · have ht : (bs.map TapHold.compiled).map (·.trigger) = (bs.map (·.key)).map Trigger.ofKey := by
      rw [List.map_map, List.map_map]
      exact List.map_congr_left fun b hb => (hc b hb).1
    rw [ht]
    exact distinct.map fun j k he => by simpa [Trigger.ofKey] using he

/-- What is one timeout after an instant is one delay after it. -/
theorem delays_past {bs : List TapHold} (compiles : ∀ b ∈ bs, ∃ f, b.compile = .ok f)
    (first : ∀ b ∈ bs, b.priority = .tapFirst) {releases : List Nat} {last : Nat}
    (late : ∀ u ∈ releases, ∀ b ∈ bs, u + b.timeout.toNat ≤ last) :
    ∀ u ∈ releases, ∀ m ∈ bs.map TapHold.compiled, ∀ l, m.delayed = some l → u + l.delay.toNat ≤ last := by
  intro u hu m hm l hl
  obtain ⟨b, hb, rfl⟩ := List.mem_map.1 hm
  obtain ⟨f, hf⟩ := compiles b hb
  rw [TapHold.compiled, TapHold.manipulator, first b hb] at hl
  obtain rfl := Option.some.inj hl
  have ht : (UInt32.ofNat b.timeout.toNat).toNat = b.timeout.toNat :=
    UInt32.toNat_ofNat_of_lt' (b.compile_manipulators hf).2
  have hu := late u hu b hb
  show u + (UInt32.ofNat b.timeout.toNat).toNat ≤ last
  omega

theorem down_before_advance {events before after : List Input} {k : Key} {t last : Nat} :
    events ++ [.advance last] = before ++ .down k t :: after ↔
      ∃ rest, after = rest ++ [.advance last] ∧ events = before ++ .down k t :: rest := by
  constructor
  · intro he
    rcases List.eq_nil_or_concat after with rfl | ⟨rest, c, rfl⟩
    · obtain ⟨-, hl⟩ := List.append_inj' he rfl
      cases hl
    · rw [List.concat_eq_append, ← List.cons_append, ← List.append_assoc] at he
      obtain ⟨he, hc⟩ := List.append_inj' he rfl
      rw [List.concat_eq_append, hc]
      exact ⟨rest, rfl, he⟩
  · rintro ⟨rest, rfl, rfl⟩
    rw [List.append_assoc, List.cons_append]

/-- How often a rule sent its tap or its hold. -/
def Engine.sent (i : Nat) (journal : List Incident) : Nat := (taps i journal).length + (holds i journal).length

/-- In a rule set of tap-first bindings on distinct keys without gates, after a run that ends one timeout after every
key went up, each accepted key-down of a binding was tapped, held or dropped. None was dropped exactly if no
accepted key-down of the key found a countdown of the binding running. -/
theorem tapFirst_accounted {r : RuleSet} {bs : List TapHold}
    (compiled : bs.mapM TapHold.compile = .ok (r.groups.flatMap (·.fragments)))
    (first : ∀ b ∈ bs, b.priority = .tapFirst) (ungated : ∀ b ∈ bs, b.gate = none)
    (distinct : (bs.map (·.key)).Nodup) {events : List Input} (released : allReleased events = true) {last : Nat}
    (late : ∀ u ∈ (session r.manipulators events).releases, ∀ b ∈ bs, u + b.timeout.toNat ≤ last)
    {i : Nat} {b : TapHold} (placed : bs[i]? = some b) :
    sent i (run r.manipulators (events ++ [.advance last])).journal +
        (drops i (run r.manipulators (events ++ [.advance last])).journal).length =
      (session r.manipulators (events ++ [.advance last])).accepted.count b.key ∧
    (sent i (run r.manipulators (events ++ [.advance last])).journal =
        (session r.manipulators (events ++ [.advance last])).accepted.count b.key ↔
      ∀ before t after, events = before ++ .down b.key t :: after →
        (advanceTo r.manipulators t (run r.manipulators before)).isDown b.key = false →
        ∀ d ∈ (advanceTo r.manipulators t (run r.manipulators before)).pending, d.rule = i → d.deadline = none) := by
  obtain ⟨hm, hall⟩ := mapM_manipulators (fun h => (TapHold.compile_manipulators h).1) compiled
  rw [← RuleSet.manipulators_eq] at hm
  have hx : Exclusive r.manipulators := hm ▸ exclusive_tapFirst first ungated distinct
  have hb : b ∈ bs := List.mem_of_getElem? placed
  have hi : r.manipulators[i]? = some b.compiled := by rw [hm, List.getElem?_map, placed]; rfl
  obtain ⟨f, hf, own⟩ := hall b hb
  have hk : b.compiled.trigger = .ofKey b.key := by rw [TapHold.compiled, TapHold.manipulator, first b hb]; rfl
  have past := delays_past (fun b hb => (hall b hb).imp fun _ h => h.1) first late
  rw [← hm] at past
  have total := hx.outcomes hi (b.decisive hf (first b hb) own) hk released past
  rw [(settlements_perm i _).length_eq, List.length_append, List.length_append, ← Nat.add_assoc] at total
  refine ⟨total, ?_⟩
  have hn : sent i (run r.manipulators (events ++ [.advance last])).journal =
        (session r.manipulators (events ++ [.advance last])).accepted.count b.key ↔
      drops i (run r.manipulators (events ++ [.advance last])).journal = [] := by
    rw [← List.length_eq_zero_iff, sent]
    omega
  rw [hn, hx.drops_eq_nil_iff hi hk]
  constructor
  · intro hall before t after he
    exact hall before t (after ++ [.advance last]) (down_before_advance.2 ⟨after, rfl, he⟩)
  · intro hall before t after he
    obtain ⟨rest, -, he⟩ := down_before_advance.1 he
    exact hall before t rest he

def homeRowSet : RuleSet :=
  ⟨[⟨"home row", [⟨"tap-hold " ++ homeRow.text, [homeRow.manipulator 200], none⟩]⟩]⟩

/-- The home-row key is rolled over `x` and goes down again while its delayed tap counts down. -/
def rolledTwice : List Input := [
  .down homeRow.key 0, .down ⟨⟨23, by decide +kernel⟩⟩ 10, .up homeRow.key 20, .down homeRow.key 30,
  .up homeRow.key 40, .up ⟨⟨23, by decide +kernel⟩⟩ 50]

theorem homeRowSet_compile :
    [homeRow].mapM TapHold.compile = .ok (homeRowSet.groups.flatMap (·.fragments)) := rfl

/-- Of the two presses one is dropped. -/
theorem tapFirst_accounted_rolledTwice :
    (drops 0 (run homeRowSet.manipulators (rolledTwice ++ [.advance 300])).journal).length = 1 ∧
    sent 0 (run homeRowSet.manipulators (rolledTwice ++ [.advance 300])).journal +
        (drops 0 (run homeRowSet.manipulators (rolledTwice ++ [.advance 300])).journal).length =
      (session homeRowSet.manipulators (rolledTwice ++ [.advance 300])).accepted.count homeRow.key :=
  ⟨rfl, (tapFirst_accounted homeRowSet_compile (by simp [homeRow]) (by simp [homeRow]) (by simp) rfl
    (by decide +kernel) rfl).1⟩

/-- So not every accepted key-down of a tap-first binding is tapped or held. -/
theorem tapFirst_loses_tap :
    ¬∀ (r : RuleSet) (bs : List TapHold) (events : List Input) (last i : Nat) (b : TapHold),
      bs.mapM TapHold.compile = .ok (r.groups.flatMap (·.fragments)) → (∀ b ∈ bs, b.priority = .tapFirst) →
      (∀ b ∈ bs, b.gate = none) → (bs.map (·.key)).Nodup → allReleased events = true →
      (∀ u ∈ (session r.manipulators events).releases, ∀ b ∈ bs, u + b.timeout.toNat ≤ last) →
      last ≤ lastInstant → bs[i]? = some b →
      sent i (run r.manipulators (events ++ [.advance last])).journal =
        (session r.manipulators (events ++ [.advance last])).accepted.count b.key := by
  intro h
  have hs := h homeRowSet [homeRow] rolledTwice 300 0 homeRow homeRowSet_compile (by simp [homeRow])
    (by simp [homeRow]) (by simp) rfl (by decide +kernel) (by decide +kernel) rfl
  revert hs
  decide +kernel

end KeyRules
