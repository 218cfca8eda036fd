import KeyRules.Proofs.Compiled
import KeyRules.Proofs.Engine.Balance
import KeyRules.Proofs.Engine.LonePress

/-!
# Output while no lazy key waits

While no lazy key waits, an action sends its own keys or its text and nothing else: all of it at once for a tap
(`Unarmed.taps`), and for a press that holds it the keys down now and up at its release (`Unarmed.carriesOut`,
`Unarmed.letsGo`).
-/

namespace KeyRules

/-! ## What an action sends -/

namespace Action

def keys : Action → List Key
  | key k ms => ms.filterMap Modifier.key? ++ [k]
  | combination name => name.expand.tail.filterMap Modifier.key? ++ (carrier? name).toList
  | paste _ => []

def pressed : Action → List Output
  | paste text => [.paste text]
  | a => a.keys.map .down

def lifted (a : Action) : List Output := a.keys.reverse.map .up

def tapped (a : Action) : List Output := a.pressed ++ a.lifted

/-- An action is a text or one stroke of its keys. -/
theorem events_eq (a : Action) :
    (∃ text, a = .paste text) ∨
      ∃ s, a.events = [.stroke s] ∧ s.isLazy = false ∧ Engine.strokeKeys s = a.keys ∧ a.pressed = a.keys.map .down := by
  cases a with
  | paste text => exact .inl ⟨text, rfl⟩
  | key k ms => exact .inr ⟨⟨k, ms, false, false⟩, rfl, rfl, rfl, rfl⟩
  | combination name =>
    obtain ⟨k, hk⟩ := Option.isSome_iff_exists.1 (carrier_isSome name)
    refine .inr ⟨⟨k, name.expand.tail, false, false⟩, ?_, rfl, ?_, rfl⟩
    · simp [events, eventsWith, hk]
    · simp [Engine.strokeKeys, keys, hk]

end Action

namespace Engine

/-- No lazy key waits and no key is held back. The flags, the presses and delayed actions in flight, and the output are
these. -/
structure Unarmed (s : State) (flags : List Flag) (presses : List Press) (pending : List Pending)
    (output : List Output) : Prop where
  flags : s.flags = flags
  presses : s.presses = presses
  pending : s.pending = pending
  output : s.output = output
  armed : s.armed = []
  free : s.buffer = none

section
variable {rules : List Manipulator} {s : State} {fs : List Flag} {ps : List Press} {ds : List Pending}
variable {os : List Output}

theorem Unarmed.note (h : Unarmed s fs ps ds os) (l : Incident) : Unarmed (s.note l) fs ps ds os :=
  ⟨h.flags, h.presses, h.pending, h.output, h.armed, h.free⟩

theorem Unarmed.tick (h : Unarmed s fs ps ds os) (instant : Nat) : Unarmed (s.tick instant) fs ps ds os := by
  unfold State.tick
  split
  · exact ⟨h.flags, h.presses, h.pending, h.output, h.armed, h.free⟩
  · exact ⟨h.flags, h.presses, h.pending, h.output, h.armed, h.free⟩

/-! ## Sending -/

theorem Unarmed.send (h : Unarmed s fs ps ds os) (o : Output) : Unarmed (s.send o) fs ps ds (os ++ [o]) :=
  ⟨h.flags, h.presses, h.pending, congrArg (· ++ [o]) h.output, h.armed, h.free⟩

theorem Unarmed.sendAll (h : Unarmed s fs ps ds os) (more : List Output) :
    Unarmed (s.sendAll more) fs ps ds (os ++ more) := by
  induction more generalizing s os with
  | nil =>
    rw [List.append_nil]
    exact h
  | cons o more ih =>
    rw [List.append_cons]
    exact ih (h.send o)

theorem Unarmed.sendDown (h : Unarmed s fs ps ds os) (k : Key) : Unarmed (s.sendDown k) fs ps ds (os ++ [.down k]) := by
  have none_waits : s.sendArmed = { s with armed := [] } := by
    simp [State.sendArmed, h.armed]
  have same : Unarmed { s with armed := [] } fs ps ds os := ⟨h.flags, h.presses, h.pending, h.output, rfl, h.free⟩
  unfold State.sendDown
  rw [none_waits]
  split
  · exact h.send _
  · exact same.send _

theorem Unarmed.sendDowns (h : Unarmed s fs ps ds os) (ks : List Key) :
    Unarmed (s.sendDowns ks) fs ps ds (os ++ ks.map .down) := by
  induction ks generalizing s os with
  | nil =>
    rw [List.map_nil, List.append_nil]
    exact h
  | cons k ks ih =>
    rw [List.map_cons, List.append_cons]
    exact ih (h.sendDown k)

theorem Unarmed.sendUps (h : Unarmed s fs ps ds os) (ks : List Key) :
    Unarmed (s.sendUps ks) fs ps ds (os ++ ks.reverse.map .up) := h.sendAll _

theorem Unarmed.updatePress (h : Unarmed s fs ps ds os) (id : Nat) (change : Press → Press) :
    Unarmed (s.updatePress id change) fs (ps.map fun p => if p.id = id then change p else p) ds os :=
  ⟨h.flags, congrArg _ h.presses, h.pending, h.output, h.armed, h.free⟩

theorem Unarmed.drop (h : Unarmed s fs ps ds os) (id : Nat) :
    Unarmed (s.drop id) fs (ps.filter fun q => q.id != id) ds os :=
  ⟨h.flags, congrArg (List.filter _) h.presses, h.pending, h.output, h.armed, h.free⟩

theorem Unarmed.setFlag (h : Unarmed s fs ps ds os) (f : Flag) (value : Bool) :
    Unarmed (s.setFlag f value)
      (if value then (if f ∈ fs then fs else fs ++ [f]) else fs.filter (· != f)) ps ds os := by
  obtain ⟨rfl, hp, hd, ho, ha, hb⟩ := h
  cases value <;> exact ⟨rfl, hp, hd, ho, ha, hb⟩

theorem Unarmed.carriesOut (h : Unarmed s fs ps ds os) (id : Nat) (a : Action) :
    Unarmed (s.sendEvents (some id) a.events) fs
      (ps.map fun p => if p.id = id then { p with outputs := p.outputs ++ a.keys } else p) ds (os ++ a.pressed) := by
  obtain ⟨text, rfl⟩ | ⟨stroke, he, hl, hk, hp⟩ := a.events_eq
  · have same : (ps.map fun p => if p.id = id then { p with outputs := p.outputs ++ (Action.paste text).keys } else p) =
        ps := by
      simp [Action.keys]
    rw [same]
    exact h.send (.paste text)
  · rw [he, hp]
    show Unarmed (State.sendEvent (some id) s (.stroke stroke)) _ _ _ _
    simp only [State.sendEvent, hl, hk, Bool.false_eq_true, if_false]
    exact (h.sendDowns a.keys).updatePress id _

theorem Unarmed.taps (h : Unarmed s fs ps ds os) (a : Action) :
    Unarmed (s.sendEvents none a.events) fs ps ds (os ++ a.tapped) := by
  obtain ⟨text, rfl⟩ | ⟨stroke, he, -, hk, hp⟩ := a.events_eq
  · exact h.send (.paste text)
  · rw [he, Action.tapped, hp, ← List.append_assoc]
    show Unarmed (State.sendEvent none s (.stroke stroke)) _ _ _ _
    simp only [State.sendEvent, hk]
    exact (h.sendDowns a.keys).sendUps a.keys

/-! ## Presses -/

theorem Unarmed.endCountdowns {k : Key} (h : Unarmed s fs ps ds os) {cs : List Pending}
    (own : ∀ c ∈ cs, k ∈ c.owners) : Unarmed (cs.foldl (endCountdown rules [k]) s) fs ps ds os := by
  induction cs generalizing s with
  | nil => exact h
  | cons c cs ih =>
    have dropped : endCountdown rules [k] s c = s.note (.dropped c.press c.rule) := by
      unfold endCountdown
      rw [if_pos (by simpa using own c List.mem_cons_self)]
    rw [List.foldl_cons, dropped]
    exact ih (h.note _) fun c hc => own c (List.mem_cons_of_mem _ hc)

/-- A new press only drops the countdowns of its own key. -/
theorem Unarmed.disturbed (h : Unarmed s fs ps ds os) {k : Key}
    (own : ∀ c ∈ ds, c.deadline.isSome = true ∧ k ∈ c.owners) (rule : Option Nat) (instant : Nat) :
    Unarmed (disturbed rules [k] rule instant s) fs (ps.map Press.disturb) [] os := by
  have running : ds.filter (·.deadline.isSome) = ds := List.filter_eq_self.2 fun c hc => (own c hc).1
  have resting : ds.filter (·.deadline.isNone) = [] := by
    refine List.filter_eq_nil_iff.2 fun c hc => ?_
    rw [Option.isNone_iff_eq_none]
    exact Option.isSome_iff_ne_none.1 (own c hc).1
  have quiet : Unarmed (interrupt rules [k] (s.note (.dispatched (s.serial + 1) [k] rule instant s.flags)))
      fs (ps.map Press.disturb) [] os := by
    have hp : (s.note (.dispatched (s.serial + 1) [k] rule instant s.flags)).presses = ps := h.presses
    have hd : (s.note (.dispatched (s.serial + 1) [k] rule instant s.flags)).pending = ds := h.pending
    have calm : Unarmed { s.note (.dispatched (s.serial + 1) [k] rule instant s.flags) with
        presses := ps.map Press.disturb, pending := [] } fs (ps.map Press.disturb) [] os :=
      ⟨h.flags, rfl, rfl, h.output, h.armed, h.free⟩
    unfold interrupt
    simp only [hp, hd, running, resting]
    exact calm.endCountdowns fun c hc => (own c hc).2
  exact ⟨quiet.flags, quiet.presses, quiet.pending, quiet.output, quiet.armed, quiet.free⟩

/-- A rule begins a press while only countdowns of the same key run. -/
theorem Unarmed.begins (h : Unarmed s fs [] ds os) {k : Key} (own : ∀ c ∈ ds, c.deadline.isSome = true ∧ k ∈ c.owners)
    {i : Nat} {m : Manipulator} (placed : rules[i]? = some m) (instant : Nat) :
    ∃ u id, dispatch rules [k] (some i) instant s = u.emit id i .press (some id) m.onPress ∧
      Unarmed u fs [begun id [k] i instant m] (awaited id [k] i m) os := by
  have calm : Unarmed (Engine.disturbed rules [k] (some i) instant s) fs [] [] os := h.disturbed own (some i) instant
  have counted : (Engine.disturbed rules [k] (some i) instant s).serial = s.serial + 1 := rfl
  rw [dispatch_rule rules [k] placed, beginRule_eq counted]
  refine ⟨_, s.serial + 1, rfl, ?_⟩
  exact ⟨calm.flags, congrArg (· ++ [begun (s.serial + 1) [k] i instant m]) calm.presses,
    congrArg (· ++ awaited (s.serial + 1) [k] i m) calm.pending, calm.output, calm.armed, calm.free⟩

theorem Unarmed.releaseOutputs (h : Unarmed s fs ps ds os) (p : Press) :
    Unarmed (s.releaseOutputs p) fs (ps.map fun q => if q.id = p.id then { q with outputs := [] } else q) ds
      (os ++ p.outputs.reverse.map .up) := by
  have lifted := (h.sendUps p.outputs).updatePress p.id fun q => { q with outputs := [] }
  unfold State.releaseOutputs
  simp only [lifted.armed, List.filter_nil, List.reverse_nil, List.foldl_nil]
  exact ⟨lifted.flags, lifted.presses, lifted.pending, lifted.output, rfl, lifted.free⟩

/-- The last key of a press goes up: what it holds goes up, and the press is gone. -/
theorem Unarmed.letGo (h : Unarmed s fs ps ds os) (p : Press) (left : List Key) :
    Unarmed (((s.updatePress p.id fun q => { q with held := left }).releaseOutputs p).drop p.id) fs
      (ps.filter fun q => q.id != p.id) ds (os ++ p.outputs.reverse.map .up) := by
  have gone := ((h.updatePress p.id fun q => { q with held := left }).releaseOutputs p).drop p.id
  rwa [filter_update (f := fun q => { q with outputs := [] }) fun _ => rfl,
    filter_update (f := fun q => { q with held := left }) fun _ => rfl] at gone

theorem Unarmed.ends (h : Unarmed s fs ps ds os) (p : Press) (i : Nat) {m : Manipulator} (tap : m.onTap = [])
    (quiet : m.onRelease = []) (instant : Nat) :
    ∃ u, endRule p i m instant s = startCountdown p.id m instant u ∧ Unarmed u fs ps ds os := by
  unfold endRule
  rw [tap, quiet]
  cases isTap m p instant with
  | true => exact ⟨_, rfl, (h.note _).note _⟩
  | false => exact ⟨_, rfl, h.note _⟩

/-- The key of the only press goes up, and its rule sends nothing of its own at the end: the keys it holds go up, and
its countdown starts. -/
theorem Unarmed.letsGo {p : Press} (h : Unarmed s fs [p] ds os) {k : Key} (held : p.held = [k]) {i : Nat}
    (rule : p.rule = some i) {m : Manipulator} (placed : rules[i]? = some m) (tap : m.onTap = [])
    (quiet : m.onRelease = []) (instant : Nat) :
    ∃ u, release rules k instant s = startCountdown p.id m instant u ∧
      Unarmed u fs [] ds (os ++ p.outputs.reverse.map .up) := by
  have hh : s.holder? k = some p := by
    unfold State.holder?
    rw [h.presses]
    simp [held]
  have emptied : p.held.filter (· != k) = [] := by simp [held]
  have gone := h.letGo p []
  rw [List.filter_singleton, bne_self_eq_false] at gone
  unfold release
  simp only [hh, emptied, List.isEmpty_nil, if_true]
  unfold endPress
  simp only [rule, placed]
  exact (gone.note (.released p.id)).ends p i tap quiet instant

variable (rules) in
theorem Unarmed.fires {c : Pending} (h : Unarmed s fs ps [c] os) (instant : Nat) :
    ∃ u, fireCountdown rules s c instant = u.sendEvents none (eventsOf rules c.rule onInvoked) ∧
      Unarmed u fs ps [] os := by
  refine ⟨_, rfl, Unarmed.note (Unarmed.note ?_ _) _⟩
  refine ⟨h.flags, h.presses, ?_, h.output, h.armed, h.free⟩
  show s.pending.filter (fun p => p.press != c.press) = []
  simp [h.pending]

end

end Engine

end KeyRules
