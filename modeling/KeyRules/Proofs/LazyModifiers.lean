import KeyRules.Proofs.Engine.LazyRuns
import KeyRules.Proofs.Engine.PhysicalKeys
import KeyRules.Proofs.HoldFirst

/-!
# Lazy modifiers

Bindings make keys wait only where they hold an action, and the keys that wait are modifiers. So in a run of rules that
bindings compile to, lazy modifiers go down when another key needs them, once, and when a key of their press goes up they
are gone (`lazy_modifiers_needed`).
-/

namespace KeyRules

open Engine

/-! ## What bindings arm -/

theorem Modifier.key_isModifier {m : Modifier} {k : Key} (h : m.key? = some k) : k.isModifier = true := by
  have all : m.key?.all Key.isModifier = true := by cases m <;> decide +kernel
  rwa [h, Option.all_some] at all

theorem Action.carrier_isModifier {name : ModifierAlias} {k : Key} (h : carrier? name = some k) :
    k.isModifier = true := by
  obtain ⟨m, -, spelled⟩ := Option.bind_eq_some_iff.1 h
  have own : m.key? = some k := by
    rw [Modifier.key?, spelled]
    rfl
  exact Modifier.key_isModifier own

theorem strokeKeys_modifiers {stroke : Stroke} (own : stroke.key.isModifier = true) :
    ∀ k ∈ strokeKeys stroke, k.isModifier = true := by
  intro k hk
  rcases List.mem_append.1 hk with hk | hk
  · obtain ⟨m, -, hm⟩ := List.mem_filterMap.1 hk
    exact Modifier.key_isModifier hm
  · rw [List.mem_singleton.1 hk]
    exact own

/-- Modifiers wait, for at most `n` of the events. -/
structure Waits (n : Nat) (es : List Event) : Prop where
  modifiers : LazyModifiers es
  most : es.countP armsKeys ≤ n

theorem Waits.nil : Waits 0 [] := ⟨fun _ hs => (List.not_mem_nil hs).elim, Nat.le_refl 0⟩

theorem Waits.le {m n : Nat} {es : List Event} (h : Waits m es) (le : m ≤ n) : Waits n es :=
  ⟨h.modifiers, Nat.le_trans h.most le⟩

theorem Waits.append {m n : Nat} {es fs : List Event} (h : Waits m es) (h' : Waits n fs) :
    Waits (m + n) (es ++ fs) := by
  refine ⟨fun stroke hs => ?_, ?_⟩
  · rcases List.mem_append.1 hs with hs | hs
    · exact h.modifiers stroke hs
    · exact h'.modifiers stroke hs
  · rw [List.countP_append]
    exact Nat.add_le_add h.most h'.most

theorem Waits.single {n : Nat} {e : Event} (modifiers : ∀ stroke, e = .stroke stroke → stroke.isLazy = true →
    ∀ k ∈ strokeKeys stroke, k.isModifier = true) (most : armsKeys e = true → 0 < n) : Waits n [e] := by
  refine ⟨fun stroke hs => modifiers stroke (List.mem_singleton.1 hs).symm, ?_⟩
  rw [List.countP_singleton]
  split
  · rename_i arms
    exact most arms
  · exact Nat.zero_le n

theorem Waits.cons_setFlag {n : Nat} {es : List Event} (f : Flag) (value : Bool) (h : Waits n es) :
    Waits n (.setFlag f value :: es) := by
  have write : Waits 0 [.setFlag f value] := .single (fun _ he => nomatch he) fun arms => nomatch arms
  exact Nat.zero_add n ▸ write.append h

/-- An action makes modifiers wait if it is lazy. -/
theorem Action.eventsWith_waits (a : Action) (isLazy : Bool) : Waits isLazy.toNat (a.eventsWith isLazy) := by
  have lazy_pos : isLazy = true → 0 < isLazy.toNat := fun h => h ▸ Nat.one_pos
  cases a with
  | key k ms =>
    refine .single (fun stroke hs waits => ?_) fun arms => lazy_pos (Bool.and_eq_true_iff.1 arms).1
    obtain rfl := Event.stroke.inj hs
    exact strokeKeys_modifiers (Bool.and_eq_true_iff.1 waits).2
  | combination name =>
    obtain ⟨k, hk⟩ := Option.isSome_iff_exists.1 (carrier_isSome name)
    have sent : (combination name).eventsWith isLazy = [.stroke ⟨k, name.expand.tail, isLazy, false⟩] := by
      simp [eventsWith, hk]
    rw [sent]
    refine .single (fun stroke hs _ => ?_) fun arms => lazy_pos arms
    obtain rfl := Event.stroke.inj hs
    exact strokeKeys_modifiers (carrier_isModifier hk)
  | paste text =>
    refine .single (fun stroke hs => ?_) fun arms => ?_
    · cases hs
    · cases arms

theorem Action.events_waits (a : Action) : Waits 0 a.events := a.eventsWith_waits false

theorem TapHold.writeFlag_waits (flag : Option Flag) (value : Bool) : Waits 0 (writeFlag flag value) := by
  cases flag with
  | none => exact .nil
  | some f => exact Waits.nil.cons_setFlag f value

theorem TapHold.haltFirst_waits {n : Nat} {es : List Event} (h : Waits n es) : Waits n (haltFirst es) := by
  cases es with
  | nil => exact h
  | cons e es =>
    cases e with
    | stroke stroke =>
      refine ⟨fun other hs => ?_, h.most⟩
      rcases List.mem_cons.1 hs with he | hs
      · obtain rfl := Event.stroke.inj he
        exact h.modifiers stroke List.mem_cons_self
      · exact h.modifiers other (List.mem_cons_of_mem _ hs)
    | paste text => exact h
    | setFlag f value => exact h

/-- Each list of a manipulator arms what it may. -/
theorem armsOnce_of_lists {m : Manipulator} {n : Nat} (press : Waits n m.onPress) (once : n ≤ 1)
    (timed : m.holdThreshold.isSome = true → n = 0) (hold : Waits 1 m.onHold) (tap : Waits 0 m.onTap)
    (release : Waits 0 m.onRelease) (delayed : ∀ d, m.delayed = some d → Waits 0 (d.onInvoked ++ d.onCanceled)) :
    ArmsOnce m where
  modifiers := by
    have listed := ((press.append tap).append hold).append release
    have all : LazyModifiers m.events := by
      unfold Manipulator.events
      cases hd : m.delayed with
      | none => exact (listed.append .nil).modifiers
      | some d => exact (listed.append (delayed d hd)).modifiers
    exact all
  press := Nat.le_trans press.most once
  hold := hold.most
  timed h := Nat.le_zero.1 (timed h ▸ press.most)

/-- What bindings compile to arms modifiers, once for a press. -/
theorem Manipulator.Compiled.armsOnce {m : Manipulator} (h : m.Compiled) : ArmsOnce m := by
  have unheld : Waits 1 [] := Waits.nil.le (Nat.zero_le 1)
  have prompt : ∀ d, (none : Option Delayed) = some d → Waits 0 (d.onInvoked ++ d.onCanceled) := fun _ he => nomatch he
  cases h with
  | tapHold b timeout =>
    have lazy : Waits 1 b.hold.lazyEvents := b.hold.eventsWith_waits true
    unfold TapHold.manipulator
    cases b.priority with
    | tapFirst =>
      refine armsOnce_of_lists .nil (Nat.zero_le 1) (fun _ => rfl) ?_ ?_ (TapHold.writeFlag_waits _ _) fun d hd => ?_
      · exact (TapHold.haltFirst_waits lazy).append (TapHold.writeFlag_waits _ _)
      · exact TapHold.haltFirst_waits b.tap.events_waits
      · obtain rfl := Option.some.inj hd
        exact b.tap.events_waits.append b.tap.events_waits
    | holdFirst =>
      refine armsOnce_of_lists ?_ (Nat.le_refl 1) (fun h => nomatch h) unheld b.tap.events_waits
        (TapHold.writeFlag_waits _ _) prompt
      exact lazy.append (TapHold.writeFlag_waits _ _)
  | chord window size nodup =>
    rename_i c
    exact armsOnce_of_lists c.action.events_waits (Nat.zero_le 1) (fun _ => rfl) unheld .nil .nil prompt
  | second d =>
    have waits := d.action.events_waits.cons_setFlag d.flagInUse false
    exact armsOnce_of_lists waits (Nat.zero_le 1) (fun _ => rfl) unheld .nil .nil prompt
  | first d interval =>
    refine armsOnce_of_lists (Waits.nil.cons_setFlag _ _) (Nat.zero_le 1) (fun _ => rfl) unheld .nil .nil fun e he => ?_
    obtain rfl := Option.some.inj he
    have fallback : Waits 0 d.fallback := d.singleTapInUse.events_waits.cons_setFlag _ _
    exact fallback.append fallback
  | activation l =>
    exact armsOnce_of_lists (Waits.nil.cons_setFlag _ _) (Nat.zero_le 1) (fun _ => rfl) unheld
      (Action.events_waits (.key l.key [])) (Waits.nil.cons_setFlag _ _) prompt
  | gated l b =>
    exact armsOnce_of_lists b.2.events_waits (Nat.zero_le 1) (fun _ => rfl) unheld .nil .nil prompt
  | opener threshold other =>
    rename_i l b
    exact armsOnce_of_lists (b.2.events_waits.cons_setFlag _ _) (Nat.zero_le 1) (fun _ => rfl) unheld .nil
      (Waits.nil.cons_setFlag _ _) prompt

/-! ## Runs -/

/-- What is armed after inputs, each with its press, in the order of arming. -/
def Engine.State.armedNames (s : State) : List (Nat × List Key) := s.armed.map Armed.name

/-- The state in which a key goes up: the due timers have fired, and no buffer holds the key. -/
def Engine.raising (rules : List Manipulator) (k : Key) (instant : Nat) (s : State) : State :=
  flushHolding rules k (advanceTo rules instant s)

/-- Lazy keys are applied when needed. -/
structure AppliedWhenNeeded (rules : List Manipulator) (inputs : List Input) : Prop where
  /-- The journal tells what was output, in order. -/
  transcript : (session rules inputs).transcript = (run rules inputs).journal.filterMap Incident.output?
  /-- Lazy keys belong to presses in flight. -/
  owned : ∀ a ∈ (run rules inputs).armed, ∃ p ∈ (run rules inputs).presses, p.id = a.press
  /-- Those that wait have let no key pass that needs them. They go down once, all in order, and up again if they
  went down. -/
  fate : ∀ before id ks after, (run rules inputs).journal = before ++ .armed id ks :: after →
    LazyFate id ks after ((run rules inputs).armed.filter (·.press == id))
  /-- They stay armed unless a key goes up. -/
  kept : ∀ i, (∀ k instant, i ≠ .up k instant) →
    (run rules inputs).armedNames <+: (run rules (inputs ++ [i])).armedNames
  /-- They stay armed until the key that goes up lets its press go. -/
  keptUp : ∀ k instant, (run rules inputs).armedNames <+: (raising rules k instant (run rules inputs)).armedNames
  /-- A key of no press leaves them armed. -/
  stray : ∀ k instant, (∀ p ∈ (raising rules k instant (run rules inputs)).presses, k ∉ p.held) →
    (run rules (inputs ++ [.up k instant])).armedNames = (raising rules k instant (run rules inputs)).armedNames
  /-- A key of a press takes those of the press along, in reverse order, and no other ones. -/
  released : ∀ k instant, ∀ p ∈ (raising rules k instant (run rules inputs)).presses, k ∈ p.held →
    (run rules (inputs ++ [.up k instant])).armedNames =
      (raising rules k instant (run rules inputs)).armedNames.filter (·.1 != p.id) ∧
    ∃ more, (run rules (inputs ++ [.up k instant])).journal =
      (raising rules k instant (run rules inputs)).journal ++ upLines p.outputs ++
        ((raising rules k instant (run rules inputs)).leaving p.id).flatMap Armed.farewell ++ more ∧
      ∀ l ∈ more, l.turn? = none

/-- In every run of compiled rules, lazy modifiers are applied when needed. -/
theorem lazy_modifiers_needed {r : RuleSet} (compiled : r.Compiled) (inputs : List Input) :
    AppliedWhenNeeded r.manipulators inputs := by
  have once : ∀ m ∈ r.manipulators, ArmsOnce m := fun m hm => (compiled.manipulator m hm).armsOnce
  obtain ⟨hx, idle⟩ := reachable_session r.manipulators inputs
  have armed := hx.armedOnce once
  have transcript := armed.transcript
  have fates := (armed.steps.fate armed.nodup).2
  have owned := hx.balanced.owned
  rw [session_state] at transcript fates owned
  -- the key goes up in a moment of the run at which every key is held once
  have nodup : ∀ k instant, (raising r.manipulators k instant (run r.manipulators inputs)).heldLists.flatten.Nodup := by
    intro k instant
    have moves := moves_flushHolding r.manipulators k
      { session r.manipulators inputs with
        state := advanceTo r.manipulators instant (session r.manipulators inputs).state }
    have tracked := ((hx.advanceTo idle instant).moves moves.1).tracked
    have held := (List.nodup_append.1 (List.nodup_append.1 (tracked.owned.nodup_iff.2 tracked.down_nodup)).1).1
    rwa [session_state] at held
  have raised : ∀ k instant, run r.manipulators (inputs ++ [.up k instant]) =
      release r.manipulators k (advanceTo r.manipulators instant (run r.manipulators inputs)).now
        (raising r.manipulators k instant (run r.manipulators inputs)) := fun k instant => run_append _ _ _
  refine ⟨transcript, fun a ha => List.mem_map.1 (owned a ha), fates, fun i other => ?_, fun k instant => ?_,
    fun k instant free => ?_, fun k instant p hp hk => ?_⟩
  · rw [run_append]
    exact step_stay once _ other
  · exact (advanceTo_stay once instant _).trans (flushHolding_stay once k _)
  · have unheld : (raising r.manipulators k instant (run r.manipulators inputs)).holder? k = none := by
      refine holder_eq_none fun held => ?_
      obtain ⟨ks, hks, hk⟩ := List.mem_flatten.1 held
      obtain ⟨p, hp, rfl⟩ := List.mem_map.1 hks
      exact free p hp hk
    rw [raised, release_none r.manipulators unheld]
    rfl
  · obtain ⟨names, more, journal, quiet⟩ := release_leaves r.manipulators
      (holder_of_held (nodup k instant) hp hk) (advanceTo r.manipulators instant (run r.manipulators inputs)).now
    rw [raised]
    refine ⟨?_, more, journal, List.filterMap_eq_nil_iff.1 quiet⟩
    rw [State.armedNames, names, State.armedNames, List.filter_map]
    rfl

/-- In the rolled keys the modifier waits, goes down in front of a delayed tap and goes up with its key. -/
theorem lazy_modifiers_needed_rolled :
    rolledKeys.Compiled ∧ AppliedWhenNeeded rolledKeys.manipulators rolledOff ∧
      .armed 3 [leftControl] ∈ (run rolledKeys.manipulators rolledOff).journal :=
  ⟨rolledKeys_compiled, lazy_modifiers_needed rolledKeys_compiled rolledOff, by decide +kernel⟩

end KeyRules
