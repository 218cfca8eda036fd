import KeyRules.Config.Basic
import KeyRules.Proofs.Engine.Gates
import KeyRules.Proofs.GroupOrder
import KeyRules.Proofs.LayerFlag

/-!
# Flags that gates test

A flag that a gate of a compiled configuration tests is written by exactly one fragment. That fragment owns it and
stands in the same group or an earlier one (`gate_flag_writer`). The exception is a layer of simultaneous presses that
binds its activation key only (`Layer.Unopened`): it owns its flag and never writes it, and assembly does not check the
flags that a fragment owns.
-/

namespace KeyRules

open Engine

/-! ## What has compiled -/

namespace Config

theorem assemble_ok {order : Option (List String)} {groups : List Group} {r : RuleSet}
    (h : assemble order groups = .ok r) :
    RuleSet.assemble r.groups = .ok r ∧ ∀ g ∈ r.groups, g ∈ groups := by
  cases order with
  | none =>
    have h : RuleSet.assemble groups = .ok r := h
    obtain ⟨-, rfl⟩ := RuleSet.assemble_ok_iff.1 h
    exact ⟨h, fun g hg => hg⟩
  | some names =>
    obtain ⟨-, arranged, -, all, h⟩ :=
      RuleSet.assembleOrdered_ok_iff.1 (show RuleSet.assembleOrdered groups names = .ok r from h)
    obtain ⟨-, rfl⟩ := RuleSet.assemble_ok_iff.1 h
    exact ⟨h, all.subset⟩

theorem atRule_ok {α : Type} {group : String} {index : Nat} {x : Except RuleError α} {a : α}
    (h : atRule group index x = .ok a) : x = .ok a := by
  cases x with
  | error e => cases h
  | ok b => rw [Except.ok.inj h]

theorem compileGroup_ok {gc : GroupConfig} {g : Group} (h : compileGroup gc = .ok g) :
    ∀ f ∈ g.fragments, ∃ b ∈ gc.bindings, b.compile = .ok f := by
  obtain ⟨fs, hfs, h⟩ := bind_ok_iff.1 h
  obtain rfl := Except.ok.inj h
  intro f hf
  obtain ⟨⟨b, index⟩, hb, hc⟩ := mapM_ok hfs f hf
  exact ⟨b, List.fst_mem_of_mem_zipIdx hb, atRule_ok hc⟩

/-- A configuration that compiles gives a rule set of compiled bindings. -/
theorem compile_ok {c : Config} {r : RuleSet} (h : c.compile = .ok r) : r.Compiled := by
  obtain ⟨groups, hg, h⟩ := bind_ok_iff.1 h
  cases ha : assemble c.order groups with
  | error e =>
    rw [ha] at h
    cases h
  | ok assembled =>
    rw [ha] at h
    obtain rfl := Except.ok.inj h
    obtain ⟨again, kept⟩ := assemble_ok ha
    refine ⟨again, fun g hr f hf => ?_⟩
    obtain ⟨gc, -, hc⟩ := mapM_ok hg g (kept g hr)
    obtain ⟨b, -, hb⟩ := compileGroup_ok hc f hf
    exact ⟨b, hb⟩

end Config

/-! ## Flags that a fragment writes -/

/-- No press opens the layer: it is one of simultaneous presses, and every binding is one of its activation key. -/
def Layer.Unopened (l : Layer) : Prop := (∃ threshold, l.mode = .simultaneous threshold) ∧ l.openerBindings = []

def Fragment.Unopened (f : Fragment) : Prop := ∃ l : Layer, l.compile = .ok f ∧ l.Unopened

/-- The manipulator writes no flag but its owner's. -/
def Manipulator.WritesOwn (m : Manipulator) (owned : Option Flag) : Prop := ∀ flag, m.Writes flag → owned = some flag

theorem TapHold.haltFirst_flag {es : List Event} (quiet : ∀ e ∈ es, e.flag? = none) :
    ∀ e ∈ haltFirst es, e.flag? = none := by
  cases es with
  | nil => exact quiet
  | cons e es =>
    intro d hd
    rcases List.mem_cons.1 hd with rfl | hd
    · have hq := quiet e List.mem_cons_self
      cases e with
      | setFlag flag value => cases hq
      | _ => rfl
    · exact quiet d (List.mem_cons_of_mem _ hd)

theorem TapHold.writeFlag_flag {owned : Option Flag} {value : Bool} {flag : Flag} :
    ∀ e ∈ writeFlag owned value, e.flag? = some flag → owned = some flag := by
  intro e he hf
  obtain ⟨f, hf', rfl⟩ := Option.map_eq_some_iff.1 (Option.mem_toList.1 he)
  obtain rfl := Option.some.inj hf
  exact hf'

theorem TapHold.writes_own (b : TapHold) (timeout : Millis) : (b.manipulator timeout).WritesOwn b.flag := by
  rintro flag ⟨e, he, hf⟩
  have sent : ∀ (a : Action) (isLazy : Bool), e ∈ a.eventsWith isLazy → b.flag = some flag := by
    intro a isLazy ha
    rw [a.eventsWith_flag isLazy e ha] at hf
    cases hf
  have halted : ∀ (a : Action) (isLazy : Bool), e ∈ haltFirst (a.eventsWith isLazy) → b.flag = some flag := by
    intro a isLazy ha
    rw [haltFirst_flag (a.eventsWith_flag isLazy) e ha] at hf
    cases hf
  have written : ∀ value, e ∈ writeFlag b.flag value → b.flag = some flag :=
    fun value hw => writeFlag_flag e hw hf
  unfold manipulator at he
  split at he
  · simp only [Manipulator.events, tapFirst, List.mem_append, List.not_mem_nil, false_or] at he
    rcases he with ((he | he | he) | he) | he | he
    · exact halted _ false he
    · exact halted _ true he
    · exact written _ he
    · exact written _ he
    · exact sent _ false he
    · exact sent _ false he
  · simp only [Manipulator.events, holdFirst, List.mem_append, List.not_mem_nil, or_false] at he
    rcases he with ((he | he) | he) | he
    · exact sent _ true he
    · exact written _ he
    · exact sent _ false he
    · exact written _ he

theorem Chord.writes_own (c : Chord) (window : Millis) : (c.manipulator window).WritesOwn none := by
  rintro flag ⟨e, he, hf⟩
  have he : e ∈ c.action.events := by simpa [Manipulator.events, manipulator] using he
  rw [c.action.eventsWith_flag false e he] at hf
  cases hf

/-- The events that begin with a write of the flag and then carry out an action. -/
theorem set_then_action {own flag : Flag} {value : Bool} {a : Action} {e : Event}
    (he : e ∈ Event.setFlag own value :: a.events) (hf : e.flag? = some flag) : own = flag := by
  rcases List.mem_cons.1 he with rfl | he
  · exact Option.some.inj hf
  · rw [a.eventsWith_flag false e he] at hf
    cases hf

theorem DoubleTap.second_writes_own (d : DoubleTap) : d.second.WritesOwn (some d.flagInUse) := by
  rintro flag ⟨e, he, hf⟩
  have he : e ∈ Event.setFlag d.flagInUse false :: d.action.events := by
    simpa [Manipulator.events, second] using he
  exact congrArg some (set_then_action he hf)

theorem DoubleTap.first_writes_own (d : DoubleTap) (interval : Millis) :
    (d.first interval).WritesOwn (some d.flagInUse) := by
  rintro flag ⟨e, he, hf⟩
  have he : e = .setFlag d.flagInUse true ∨ e ∈ d.fallback := by simpa [Manipulator.events, first] using he
  rcases he with rfl | he
  · exact hf
  · exact congrArg some (set_then_action he hf)

theorem Layer.activation_writes_own (l : Layer) : l.activation.WritesOwn (some l.flag) := by
  rintro flag ⟨e, he, hf⟩
  have he : e ∈ Event.setFlag l.flag true :: (Action.key l.key []).events ∨ e = .setFlag l.flag false := by
    simpa [Manipulator.events, activation, or_assoc] using he
  rcases he with he | rfl
  · exact congrArg some (set_then_action he hf)
  · exact hf

theorem Layer.opener_writes_own (l : Layer) (window : Millis) (b : Key × Action) :
    (l.opener window b).WritesOwn (some l.flag) := by
  rintro flag ⟨e, he, hf⟩
  have he : e ∈ Event.setFlag l.flag true :: b.2.events ∨ e = .setFlag l.flag false := by
    simpa [Manipulator.events, opener, or_assoc] using he
  rcases he with he | rfl
  · exact congrArg some (set_then_action he hf)
  · exact hf

theorem Binding.writes_own {b : Binding} {f : Fragment} (h : b.compile = .ok f) :
    ∀ m ∈ f.manipulators, m.WritesOwn f.ownedFlag := by
  cases b with
  | tapHold b =>
    obtain ⟨timeout, rfl, -⟩ := b.compile_ok h
    intro m hm
    rw [List.mem_singleton.1 hm]
    exact b.writes_own timeout
  | chord c =>
    obtain ⟨window, rfl, -⟩ := c.compile_ok h
    intro m hm
    rw [List.mem_singleton.1 hm]
    exact c.writes_own window
  | doubleTap d =>
    obtain ⟨interval, rfl, -⟩ := d.compile_ok h
    intro m hm
    simp only [List.mem_cons, List.not_mem_nil, or_false] at hm
    rcases hm with rfl | rfl
    · exact d.second_writes_own
    · exact d.first_writes_own interval
  | layer l =>
    obtain ⟨ms, rfl, hms⟩ := l.compile_ok h
    have gated : ∀ m ∈ l.bindings.map l.gated, m.WritesOwn (some l.flag) := by
      intro m hm flag hw
      obtain ⟨b, -, rfl⟩ := List.mem_map.1 hm
      exact (l.gated_writes b flag hw).elim
    cases mode : l.mode with
    | hold =>
      rw [Layer.manipulators, mode] at hms
      obtain rfl := Except.ok.inj hms
      intro m hm
      rcases List.mem_cons.1 hm with rfl | hm
      · exact l.activation_writes_own
      · exact gated m hm
    | simultaneous threshold =>
      obtain ⟨window, hms⟩ := l.compile_simultaneous mode h
      intro m hm
      rw [hms] at hm
      rcases List.mem_append.1 hm with hm | hm
      · exact gated m hm
      · obtain ⟨b, -, rfl⟩ := List.mem_map.1 hm
        exact l.opener_writes_own window b

/-- A compiled fragment writes the flag it owns, unless it is one of a layer that no press opens. -/
theorem Binding.writes_owned {b : Binding} {f : Fragment} (h : b.compile = .ok f) {flag : Flag}
    (owned : f.ownedFlag = some flag) (opened : ¬f.Unopened) : flag ∈ f.writes := by
  cases b with
  | tapHold b =>
    obtain ⟨timeout, rfl, -⟩ := b.compile_ok h
    exact Fragment.mem_writes.2 ⟨_, List.mem_singleton.2 rfl, b.writes_flag owned timeout⟩
  | chord c =>
    obtain ⟨window, rfl, -⟩ := c.compile_ok h
    cases owned
  | doubleTap d =>
    obtain ⟨interval, rfl, -⟩ := d.compile_ok h
    obtain rfl := Option.some.inj owned
    exact Fragment.mem_writes.2 ⟨d.second, List.mem_cons_self, .setFlag d.flagInUse false,
      by simp [Manipulator.events, DoubleTap.second], rfl⟩
  | layer l =>
    obtain ⟨ms, rfl, hms⟩ := l.compile_ok h
    obtain rfl := Option.some.inj owned
    cases mode : l.mode with
    | hold =>
      rw [Layer.manipulators, mode] at hms
      obtain rfl := Except.ok.inj hms
      exact Fragment.mem_writes.2 ⟨l.activation, List.mem_cons_self, l.activation_writes⟩
    | simultaneous threshold =>
      obtain ⟨window, hms⟩ := l.compile_simultaneous mode h
      have hb : l.openerBindings ≠ [] := fun none_left => opened ⟨l, h, ⟨threshold, mode⟩, none_left⟩
      obtain ⟨b, bs, hb⟩ := List.exists_cons_of_ne_nil hb
      refine Fragment.mem_writes.2 ⟨l.opener window b, ?_, .of_release (lastWrite_setFlag l.flag false)⟩
      rw [hms, hb]
      simp

theorem Fragment.Unopened.writes_nil {f : Fragment} (h : f.Unopened) : f.writes = [] := by
  obtain ⟨l, compiled, ⟨threshold, mode⟩, unopened⟩ := h
  obtain ⟨window, hms⟩ := l.compile_simultaneous mode compiled
  rw [unopened, List.map_nil, List.append_nil] at hms
  refine List.eq_nil_iff_forall_not_mem.2 fun flag hf => ?_
  obtain ⟨m, hm, hw⟩ := Fragment.mem_writes.1 hf
  rw [hms] at hm
  obtain ⟨b, -, rfl⟩ := List.mem_map.1 hm
  exact l.gated_writes b flag hw

/-! ## The writer of a flag -/

namespace RuleSet

theorem mem_entries {groups : List Group} {e : Entry} (h : e ∈ entries groups) :
    ∃ g ∈ groups, e.fragment ∈ g.fragments := by
  obtain ⟨g, here, -, hf⟩ := mem_entries_iff.1 h
  exact ⟨g, List.mem_of_getElem? here, hf⟩

def writersOf (r : RuleSet) (flag : Flag) : List Entry := (entries r.groups).filter (flag ∈ ·.fragment.writes)

theorem writersOf_eq {r : RuleSet} (assembled : assemble r.groups = .ok r) {flag : Flag} {w : Entry}
    (hw : w ∈ entries r.groups) (writes : flag ∈ w.fragment.writes) : r.writersOf flag = [w] := by
  obtain ⟨-, apart, -⟩ := wellFormed_iff.1 (assemble_ok_iff.1 assembled).1
  obtain ⟨before, after, split⟩ := List.append_of_mem hw
  rw [split, SoleWriters, List.pairwise_append, List.pairwise_cons] at apart
  obtain ⟨-, ⟨later, -⟩, earlier⟩ := apart
  have nothing : ∀ {es : List Entry}, (∀ e ∈ es, flag ∉ e.fragment.writes) →
      es.filter (flag ∈ ·.fragment.writes) = [] := by
    intro es h
    exact List.filter_eq_nil_iff.2 fun e he => by simpa using h e he
  rw [writersOf, split, List.filter_append, List.filter_cons_of_pos (by simpa using writes),
    nothing fun e he hf => earlier e he w List.mem_cons_self flag hf writes,
    nothing fun e he hf => later e he flag writes hf]
  rfl

/-- A flag that a fragment reads is written in its group or an earlier one. -/
theorem read_writer {r : RuleSet} (assembled : assemble r.groups = .ok r) {e : Entry} (he : e ∈ entries r.groups)
    {flag : Flag} (reads : flag ∈ e.fragment.reads) :
    ∃ w ∈ entries r.groups, flag ∈ w.fragment.writes ∧ w.place ≤ e.place := by
  obtain ⟨-, -, served⟩ := wellFormed_iff.1 (assemble_ok_iff.1 assembled).1
  exact served_iff.1 (served e he flag reads)

/-- Exactly one fragment writes the flag. It owns the flag, and it stands in the group of the entry or in an earlier
one. -/
def HasWriter (r : RuleSet) (e : Entry) (flag : Flag) : Prop :=
  ∃ w, r.writersOf flag = [w] ∧ w.fragment.ownedFlag = some flag ∧ w.place ≤ e.place

theorem Compiled.hasWriter {r : RuleSet} (compiled : r.Compiled) {e w : Entry} {flag : Flag}
    (hw : w ∈ entries r.groups) (writes : flag ∈ w.fragment.writes) (order : w.place ≤ e.place) :
    r.HasWriter e flag := by
  obtain ⟨g, hg, hf⟩ := mem_entries hw
  obtain ⟨b, hb⟩ := compiled.fragments g hg _ hf
  obtain ⟨m, hm, writes'⟩ := Fragment.mem_writes.1 writes
  exact ⟨w, writersOf_eq compiled.assembled hw writes, b.writes_own hb m hm flag writes', order⟩

end RuleSet

theorem Fragment.gate_read {f : Fragment} {m : Manipulator} (hm : m ∈ f.manipulators) {g : Gate} (hg : g ∈ m.gates) :
    f.ownedFlag = some g.flag ∨ g.flag ∈ f.reads := by
  by_cases own : f.ownedFlag = some g.flag
  · exact .inl own
  · refine .inr (Flag.mem_sorted.2 (List.mem_filter.2 ⟨List.mem_flatMap.2 ⟨m, hm, ?_⟩, by simpa using own⟩))
    exact List.mem_map_of_mem hg

/-- Every gate of a layer that no press opens tests the flag that the layer owns. -/
theorem Fragment.Unopened.gate_owned {f : Fragment} (h : f.Unopened) {m : Manipulator} (hm : m ∈ f.manipulators)
    {g : Gate} (hg : g ∈ m.gates) : f.ownedFlag = some g.flag := by
  obtain ⟨l, compiled, ⟨threshold, mode⟩, unopened⟩ := h
  obtain ⟨window, hms⟩ := l.compile_simultaneous mode compiled
  obtain ⟨ms, rfl, -⟩ := l.compile_ok compiled
  rw [unopened, List.map_nil, List.append_nil] at hms
  rw [hms] at hm
  obtain ⟨b, -, rfl⟩ := List.mem_map.1 hm
  rw [List.mem_singleton.1 hg]
  rfl

/-- Every flag that a gate of a compiled configuration tests has exactly one writer, which owns it and comes no later.
Only for the gates of a layer that no press opens, which test the layer's own flag, this takes another fragment that
writes the flag of the layer. -/
theorem gate_flag_writer {c : Config} {r : RuleSet} (compiled : c.compile = .ok r) {e : RuleSet.Entry}
    (he : e ∈ RuleSet.entries r.groups) {m : Manipulator} (hm : m ∈ e.fragment.manipulators) {g : Gate}
    (hg : g ∈ m.gates) :
    (¬e.fragment.Unopened → r.HasWriter e g.flag) ∧
    (e.fragment.Unopened → e.fragment.ownedFlag = some g.flag ∧ e.fragment.writes = [] ∧
      (r.HasWriter e g.flag ↔
        ∃ w ∈ RuleSet.entries r.groups, g.flag ∈ w.fragment.writes ∧ w.place ≤ e.place)) := by
  have fragments := Config.compile_ok compiled
  have found : (∃ w ∈ RuleSet.entries r.groups, g.flag ∈ w.fragment.writes ∧ w.place ≤ e.place) →
      r.HasWriter e g.flag := by
    rintro ⟨w, hw, writes, order⟩
    exact fragments.hasWriter hw writes order
  constructor
  · intro opened
    rcases Fragment.gate_read hm hg with own | reads
    · obtain ⟨group, hgroup, hf⟩ := RuleSet.mem_entries he
      obtain ⟨b, hb⟩ := fragments.fragments group hgroup _ hf
      exact found ⟨e, he, b.writes_owned hb own opened, Nat.le_refl _⟩
    · exact found (RuleSet.read_writer fragments.assembled he reads)
  · intro unopened
    refine ⟨unopened.gate_owned hm hg, unopened.writes_nil, ?_, found⟩
    rintro ⟨w, hw, -, order⟩
    have listed : w ∈ r.writersOf g.flag := by
      rw [hw]
      exact List.mem_singleton.2 rfl
    obtain ⟨hmem, writes⟩ := List.mem_filter.1 listed
    exact ⟨w, hmem, by simpa using writes, order⟩

/-- A layer, and a chord in a later group that waits for the layer's flag. -/
def navConfig : Config := ⟨[⟨"layers", [.layer navLayer]⟩, ⟨"chords", [.chord navChord]⟩], none⟩

def navEntry : RuleSet.Entry := ⟨1, "chords", ⟨"chord " ++ navChord.text, [navChord.compiled], none⟩⟩

def navRules : RuleSet := ⟨[
  ⟨"layers", [⟨navLayer.text, navLayer.activation :: navLayer.bindings.map navLayer.gated, some navLayer.flag⟩]⟩,
  ⟨"chords", [navEntry.fragment]⟩]⟩

/-- The layer is the one writer of the flag that the chord waits for. -/
theorem gate_flag_writer_nav :
    navConfig.compile = .ok navRules ∧ navRules.HasWriter navEntry ⟨"nav"⟩ := by
  have compiled : navConfig.compile = .ok navRules := by rfl
  have opened : ¬navEntry.fragment.Unopened := by
    rintro ⟨l, hl, -⟩
    obtain ⟨ms, hf, -⟩ := l.compile_ok hl
    cases congrArg Fragment.ownedFlag hf
  have writer := (gate_flag_writer compiled (e := navEntry) (List.mem_cons_of_mem _ List.mem_cons_self)
    (m := navChord.compiled) List.mem_cons_self (g := .whenSet ⟨"nav"⟩) List.mem_cons_self).1 opened
  exact ⟨compiled, writer⟩

/-- A layer of simultaneous presses that binds its activation key only. -/
def deadLayer : Layer := ⟨keyA, ⟨"nav"⟩, .simultaneous 200, [(keyA, .key keyB [])]⟩

def deadConfig : Config := ⟨[⟨"layers", [.layer deadLayer]⟩], none⟩

def deadEntry : RuleSet.Entry := ⟨0, "layers", ⟨deadLayer.text, [deadLayer.gated (keyA, .key keyB [])], some ⟨"nav"⟩⟩⟩

def deadRules : RuleSet := ⟨[⟨"layers", [deadEntry.fragment]⟩]⟩

/-- It compiles, and its gate tests a flag that nothing writes. -/
theorem dead_layer_unwritten :
    ¬∀ (c : Config) (r : RuleSet) (e : RuleSet.Entry) (m : Manipulator) (g : Gate), c.compile = .ok r →
      e ∈ RuleSet.entries r.groups → m ∈ e.fragment.manipulators → g ∈ m.gates → r.HasWriter e g.flag := by
  intro h
  have compiled : deadConfig.compile = .ok deadRules := by rfl
  have unwritten : deadRules.writersOf ⟨"nav"⟩ = [] := by rfl
  obtain ⟨w, hw, -⟩ := h deadConfig deadRules deadEntry (deadLayer.gated (keyA, .key keyB [])) (.whenSet ⟨"nav"⟩)
    compiled List.mem_cons_self List.mem_cons_self List.mem_cons_self
  cases unwritten.symm.trans hw

end KeyRules
