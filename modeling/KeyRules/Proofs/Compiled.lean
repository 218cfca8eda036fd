import KeyRules.Binding
import KeyRules.RuleSet
import Mathlib.Data.List.Nodup

/-!
# What bindings compile to

A compilation that succeeds has checked its times and its keys, and gives manipulators of a few forms only
(`Manipulator.Compiled`). Rule sets assembled from such fragments have no others (`RuleSet.Compiled.manipulator`).
-/

namespace KeyRules

theorem TimeSetting.check_ok {setting : TimeSetting} {value : Int} {time : Millis}
    (h : setting.check value = .ok time) : time.toNat = value.toNat ∧ 0 < value ∧ value.toNat < UInt32.size := by
  unfold check at h
  split at h
  · rename_i hr
    obtain rfl := Except.ok.inj h
    have hv : value.toNat < UInt32.size := by omega
    exact ⟨UInt32.toNat_ofNat_of_lt' hv, hr.1, hv⟩
  · cases h

/-! ## Tap-hold keys -/

theorem TapHold.compile_ok {b : TapHold} {f : Fragment} (h : b.compile = .ok f) :
    ∃ timeout, f = ⟨"tap-hold " ++ b.text, [b.manipulator timeout], b.flag⟩ ∧
      TimeSetting.timeout.check b.timeout = .ok timeout ∧ b.tap.isPaste = false ∧ b.hold.isPaste = false := by
  unfold compile at h
  cases ht : TimeSetting.timeout.check b.timeout with
  | error e =>
    rw [ht] at h
    cases h
  | ok timeout =>
    rw [ht] at h
    cases hp : b.tap.isPaste with
    | true =>
      rw [hp] at h
      cases h
    | false =>
      cases hq : b.hold.isPaste with
      | true =>
        rw [hp, hq] at h
        cases h
      | false =>
        rw [hp, hq] at h
        exact ⟨timeout, (Except.ok.inj h).symm, rfl, rfl, rfl⟩

theorem Action.carrier_isSome (name : ModifierAlias) : (carrier? name).isSome = true := by
  cases name <;> rfl

theorem Action.eventsWith_stroke {a : Action} (h : a.isPaste = false) (isLazy : Bool) :
    ∃ s, a.eventsWith isLazy = [.stroke s] := by
  cases a with
  | key k ms => exact ⟨_, rfl⟩
  | combination name =>
    obtain ⟨k, hk⟩ := Option.isSome_iff_exists.1 (carrier_isSome name)
    exact ⟨⟨k, name.expand.tail, isLazy, false⟩, by simp [eventsWith, hk]⟩
  | paste text => cases h

theorem Action.eventsWith_flag (a : Action) (isLazy : Bool) : ∀ e ∈ a.eventsWith isLazy, e.flag? = none := by
  intro e he
  cases a with
  | key k ms =>
    rw [List.mem_singleton.1 he]
    rfl
  | combination name =>
    obtain ⟨k, hk⟩ := Option.isSome_iff_exists.1 (carrier_isSome name)
    simp only [eventsWith, hk, List.mem_singleton] at he
    rw [he]
    rfl
  | paste text =>
    rw [List.mem_singleton.1 he]
    rfl

theorem Action.eventsWith_halting (a : Action) (isLazy : Bool) : (a.eventsWith isLazy).any Event.isHalting = false := by
  cases a with
  | key k ms => rfl
  | combination name =>
    obtain ⟨k, hk⟩ := Option.isSome_iff_exists.1 (carrier_isSome name)
    simp [eventsWith, hk, Event.isHalting]
  | paste text => rfl

theorem TapHold.mem_writeFlag (flag : Option Flag) (value : Bool) :
    ∀ e ∈ writeFlag flag value, ∃ flag value, e = .setFlag flag value := by
  intro e he
  obtain ⟨f, -, rfl⟩ := Option.map_eq_some_iff.1 (Option.mem_toList.1 he)
  exact ⟨f, value, rfl⟩

def TapHold.compiled (b : TapHold) : Manipulator := b.manipulator (UInt32.ofNat b.timeout.toNat)

theorem TapHold.compile_manipulators {b : TapHold} {f : Fragment} (h : b.compile = .ok f) :
    f.manipulators = [b.compiled] ∧ b.timeout.toNat < UInt32.size := by
  obtain ⟨timeout, rfl, ht, -, -⟩ := b.compile_ok h
  obtain ⟨hn, -, hlt⟩ := TimeSetting.check_ok ht
  refine ⟨?_, hlt⟩
  rw [compiled, ← hn, UInt32.ofNat_toNat]

/-! ## Chords -/

theorem Chord.nodup_of_repeated {before ks : List Key} (hb : before.Nodup) (h : repeated? before ks = none) :
    (before ++ ks).Nodup := by
  induction ks generalizing before with
  | nil => simpa using hb
  | cons k ks ih =>
    unfold repeated? at h
    by_cases hk : k ∈ before
    · rw [if_pos hk] at h
      cases h
    · rw [if_neg hk] at h
      have hn : (before ++ [k]).Nodup := List.nodup_append.2 ⟨hb, by simp, by
        intro a ha c hc he
        rw [List.mem_singleton.1 hc] at he
        exact hk (he ▸ ha)⟩
      simpa using ih hn h

theorem Chord.compile_ok {c : Chord} {f : Fragment} (h : c.compile = .ok f) :
    ∃ window, f = ⟨"chord " ++ c.text, [c.manipulator window], none⟩ ∧
      TimeSetting.window.check c.window = .ok window ∧ 2 ≤ c.keys.length ∧ c.keys.Nodup := by
  unfold compile at h
  by_cases hl : c.keys.length < 2
  · rw [if_pos hl] at h
    cases h
  · rw [if_neg hl] at h
    cases hr : repeated? [] c.keys with
    | some k =>
      rw [hr] at h
      cases h
    | none =>
      cases ht : TimeSetting.window.check c.window with
      | error e =>
        rw [hr, ht] at h
        cases h
      | ok window =>
        rw [hr, ht] at h
        refine ⟨window, (Except.ok.inj h).symm, rfl, by omega, ?_⟩
        exact nodup_of_repeated List.nodup_nil hr

def Chord.compiled (c : Chord) : Manipulator := c.manipulator (UInt32.ofNat c.window.toNat)

theorem Chord.compile_manipulators {c : Chord} {f : Fragment} (h : c.compile = .ok f) :
    f.manipulators = [c.compiled] := by
  obtain ⟨window, rfl, ht, -, -⟩ := c.compile_ok h
  rw [compiled, ← (TimeSetting.check_ok ht).1, UInt32.ofNat_toNat]

/-! ## Lists of bindings -/

/-- Where each binding compiles to one manipulator, a list of them compiles to these in order. -/
theorem mapM_manipulators {α : Type} {compile : α → Except RuleError Fragment} {compiled : α → Manipulator}
    (one : ∀ {b f}, compile b = .ok f → f.manipulators = [compiled b]) {bs : List α} {fs : List Fragment}
    (h : bs.mapM compile = .ok fs) :
    fs.flatMap (·.manipulators) = bs.map compiled ∧
      ∀ b ∈ bs, ∃ f, compile b = .ok f ∧ compiled b ∈ f.manipulators := by
  induction bs generalizing fs with
  | nil =>
    obtain rfl := Except.ok.inj h
    exact ⟨rfl, fun b hb => (List.not_mem_nil hb).elim⟩
  | cons b bs ih =>
    rw [List.mapM_cons] at h
    cases hf : compile b with
    | error e =>
      rw [hf] at h
      cases h
    | ok f =>
      cases hs : bs.mapM compile with
      | error e =>
        rw [hf, hs] at h
        cases h
      | ok gs =>
        rw [hf, hs] at h
        obtain rfl := Except.ok.inj h
        obtain ⟨hm, hall⟩ := ih hs
        refine ⟨by rw [List.flatMap_cons, hm, one hf]; rfl, fun c hb => ?_⟩
        rcases List.mem_cons.1 hb with rfl | hb
        · exact ⟨f, hf, by rw [one hf]; exact List.mem_singleton.2 rfl⟩
        · exact hall c hb

theorem RuleSet.manipulators_eq (r : RuleSet) :
    r.manipulators = (r.groups.flatMap (·.fragments)).flatMap (·.manipulators) := by
  rw [List.flatMap_assoc]
  rfl

/-! ## Every form of a compiled manipulator -/

/-- The manipulators that bindings compile to. -/
inductive Manipulator.Compiled : Manipulator → Prop where
  | tapHold (b : TapHold) (timeout : Millis) : Compiled (b.manipulator timeout)
  | chord {c : Chord} (window : Millis) (size : 2 ≤ c.keys.length) (nodup : c.keys.Nodup) :
    Compiled (c.manipulator window)
  | second (d : DoubleTap) : Compiled d.second
  | first (d : DoubleTap) (interval : Millis) : Compiled (d.first interval)
  | activation (l : Layer) : Compiled l.activation
  | gated (l : Layer) (b : Key × Action) : Compiled (l.gated b)
  | opener {l : Layer} (threshold : Millis) {b : Key × Action} (other : b.1 ≠ l.key) :
    Compiled (l.opener threshold b)

theorem DoubleTap.compile_ok {d : DoubleTap} {f : Fragment} (h : d.compile = .ok f) :
    ∃ interval, f = ⟨"double-tap " ++ d.text, [d.second, d.first interval], some d.flagInUse⟩ ∧
      TimeSetting.interval.check d.interval = .ok interval := by
  unfold compile at h
  cases ht : TimeSetting.interval.check d.interval with
  | error e =>
    rw [ht] at h
    cases h
  | ok interval =>
    rw [ht] at h
    exact ⟨interval, (Except.ok.inj h).symm, rfl⟩

theorem DoubleTap.compiled_of_compile {d : DoubleTap} {f : Fragment} (h : d.compile = .ok f) :
    ∀ m ∈ f.manipulators, m.Compiled := by
  obtain ⟨interval, rfl, -⟩ := d.compile_ok h
  intro m hm
  simp only [List.mem_cons, List.not_mem_nil, or_false] at hm
  rcases hm with rfl | rfl
  · exact .second d
  · exact .first d interval

/-- In simultaneous mode the bindings come first and the openers after them. -/
theorem Layer.manipulators_simultaneous {l : Layer} {threshold : Int} (mode : l.mode = .simultaneous threshold)
    {ms : List Manipulator} (h : l.manipulators = .ok ms) :
    ∃ window, TimeSetting.threshold.check threshold = .ok window ∧
      ms = l.bindings.map l.gated ++ l.openerBindings.map (l.opener window) := by
  rw [manipulators, mode] at h
  cases ht : TimeSetting.threshold.check threshold with
  | error e =>
    simp only [ht] at h
    cases h
  | ok window =>
    simp only [ht] at h
    exact ⟨window, rfl, (Except.ok.inj h).symm⟩

theorem Layer.compiled_of_manipulators {l : Layer} {ms : List Manipulator} (h : l.manipulators = .ok ms) :
    ∀ m ∈ ms, m.Compiled := by
  have gated : ∀ m ∈ l.bindings.map l.gated, m.Compiled := by
    intro m hm
    obtain ⟨b, -, rfl⟩ := List.mem_map.1 hm
    exact .gated l b
  cases hl : l.mode with
  | hold =>
    rw [manipulators, hl] at h
    obtain rfl := Except.ok.inj h
    intro m hm
    rcases List.mem_cons.1 hm with rfl | hm
    · exact .activation l
    · exact gated m hm
  | simultaneous threshold =>
    obtain ⟨window, -, rfl⟩ := l.manipulators_simultaneous hl h
    intro m hm
    rcases List.mem_append.1 hm with hm | hm
    · exact gated m hm
    · obtain ⟨b, hb, rfl⟩ := List.mem_map.1 hm
      exact .opener window (bne_iff_ne.1 (List.mem_filter.1 hb).2)

theorem Layer.compile_ok {l : Layer} {f : Fragment} (h : l.compile = .ok f) :
    ∃ ms, f = ⟨l.text, ms, some l.flag⟩ ∧ l.manipulators = .ok ms := by
  unfold compile at h
  by_cases he : l.bindings.isEmpty = true
  · rw [if_pos he] at h
    cases h
  · rw [if_neg he] at h
    cases hm : l.manipulators with
    | error e =>
      rw [hm] at h
      cases h
    | ok ms =>
      rw [hm] at h
      exact ⟨ms, (Except.ok.inj h).symm, rfl⟩

theorem Layer.compiled_of_compile {l : Layer} {f : Fragment} (h : l.compile = .ok f) :
    ∀ m ∈ f.manipulators, m.Compiled := by
  obtain ⟨ms, rfl, hm⟩ := l.compile_ok h
  exact l.compiled_of_manipulators hm

theorem Binding.compiled_of_compile {b : Binding} {f : Fragment} (h : b.compile = .ok f) :
    ∀ m ∈ f.manipulators, m.Compiled := by
  cases b with
  | tapHold b =>
    obtain ⟨timeout, rfl, -⟩ := b.compile_ok h
    intro m hm
    rw [List.mem_singleton.1 hm]
    exact .tapHold b timeout
  | chord c =>
    obtain ⟨window, rfl, -, size, nodup⟩ := c.compile_ok h
    intro m hm
    rw [List.mem_singleton.1 hm]
    exact .chord window size nodup
  | doubleTap d => exact d.compiled_of_compile h
  | layer l => exact l.compiled_of_compile h

/-- On release a compiled manipulator only writes flags. -/
theorem Manipulator.Compiled.release_flags {m : Manipulator} (h : m.Compiled) :
    ∀ e ∈ m.onRelease, ∃ flag value, e = .setFlag flag value := by
  intro e he
  cases h with
  | tapHold b timeout =>
    unfold TapHold.manipulator at he
    split at he <;> exact TapHold.mem_writeFlag _ _ e he
  | activation l => exact ⟨_, _, List.mem_singleton.1 he⟩
  | opener threshold other => exact ⟨_, _, List.mem_singleton.1 he⟩
  | _ => exact (List.not_mem_nil he).elim

theorem Manipulator.Compiled.two_keys {m : Manipulator} (h : m.Compiled) (together : m.trigger.isTogether = true) :
    2 ≤ m.trigger.keys.length := by
  cases h with
  | tapHold b timeout =>
    unfold TapHold.manipulator at together
    split at together <;> cases together
  | chord window size nodup => exact size
  | opener threshold other => exact Nat.le_refl 2
  | _ => cases together

/-- The rule set is assembled from fragments that bindings compile to. -/
structure RuleSet.Compiled (r : RuleSet) : Prop where
  assembled : RuleSet.assemble r.groups = .ok r
  fragments : ∀ g ∈ r.groups, ∀ f ∈ g.fragments, ∃ b : Binding, b.compile = .ok f

theorem RuleSet.Compiled.manipulator {r : RuleSet} (h : r.Compiled) : ∀ m ∈ r.manipulators, m.Compiled := by
  intro m hm
  obtain ⟨g, hg, hm⟩ := List.mem_flatMap.1 hm
  obtain ⟨f, hf, hm⟩ := List.mem_flatMap.1 hm
  obtain ⟨b, hb⟩ := h.fragments g hg f hf
  exact b.compiled_of_compile hb m hm

/-! ## Keys of examples -/

def keyA : Key := ⟨⟨0, by decide +kernel⟩⟩

def keyB : Key := ⟨⟨1, by decide +kernel⟩⟩

def keyC : Key := ⟨⟨2, by decide +kernel⟩⟩

def keyD : Key := ⟨⟨3, by decide +kernel⟩⟩

def keyE : Key := ⟨⟨4, by decide +kernel⟩⟩

end KeyRules
