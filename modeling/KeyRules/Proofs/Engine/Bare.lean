import KeyRules.Engine.Run

/-!
# What sending leaves alone

Sending events writes outputs, lazy keys, flags and the keys that presses hold. Everything else that decides
about a press lies in the `bare` state: the presses without their outputs, the delayed actions, the buffer, the
clock, and the journal without the lines that only tell what was sent. The lemmas here say what each operation
does to the bare state.
-/

namespace KeyRules.Engine

/-- The line only tells what became of keys that a rule sends. -/
def Incident.isSending : Incident → Bool
  | armed _ _ | applied _ _ | disarmed _ _ _ | sent _ => true
  | _ => false

/-- A press without the keys it holds down. -/
def Press.bare (p : Press) : Press := { p with outputs := [] }

/-- The part of a state that sending leaves alone. -/
def State.bare (s : State) : State := { s with
  flags := []
  armed := []
  output := []
  presses := s.presses.map Press.bare
  journal := s.journal.filter fun i => !i.isSending }

@[simp] theorem Press.bare_id (p : Press) : p.bare.id = p.id := rfl
@[simp] theorem Press.bare_rule (p : Press) : p.bare.rule = p.rule := rfl
@[simp] theorem Press.bare_disturb (p : Press) : p.disturb.bare = p.bare.disturb := rfl

namespace State

@[simp] theorem bare_presses (s : State) : s.bare.presses = s.presses.map Press.bare := rfl
@[simp] theorem bare_pending (s : State) : s.bare.pending = s.pending := rfl
@[simp] theorem bare_serial (s : State) : s.bare.serial = s.serial := rfl

/-! ## Sending -/

theorem bare_note {i : Incident} (hi : i.isSending = false) (s : State) :
    (s.note i).bare = s.bare.note i := by
  simp [note, bare, List.filter_append, hi]

theorem bare_note_sending {i : Incident} (hi : i.isSending = true) (s : State) :
    (s.note i).bare = s.bare := by
  simp [note, bare, List.filter_append, hi]

theorem bare_foldl {α : Type} {f : State → α → State} (hf : ∀ s a, (f s a).bare = s.bare) (l : List α) :
    ∀ s : State, (l.foldl f s).bare = s.bare := by
  induction l with
  | nil => exact fun _ => rfl
  | cons a l ih =>
    intro s
    rw [List.foldl_cons, ih, hf]

theorem bare_updatePress {f : Press → Press} (hf : ∀ p, (f p).bare = f p.bare) (s : State) (id : Nat) :
    (s.updatePress id f).bare = s.bare.updatePress id f := by
  simp only [updatePress, bare, List.map_map]
  congr 1
  refine List.map_congr_left fun p _ => ?_
  by_cases h : p.id = id
  · simp [h, hf]
  · simp [h]

theorem bare_updatePress_outputs {f : Press → Press} (hf : ∀ p, (f p).bare = p.bare) (s : State) (id : Nat) :
    (s.updatePress id f).bare = s.bare := by
  simp only [updatePress, bare, List.map_map]
  congr 1
  refine List.map_congr_left fun p _ => ?_
  simp only [Function.comp]
  split
  · exact hf p
  · rfl

theorem bare_send (s : State) (o : Output) : (s.send o).bare = s.bare :=
  bare_note_sending rfl _

theorem bare_sendAll (s : State) (os : List Output) : (s.sendAll os).bare = s.bare :=
  bare_foldl bare_send os s

theorem bare_sendWaiting (s : State) (a : Armed) : (s.sendWaiting a).bare = s.bare := by
  rw [sendWaiting, bare_sendAll]
  exact bare_note_sending rfl _

theorem bare_sendArmed (s : State) : s.sendArmed.bare = s.bare :=
  bare_foldl bare_sendWaiting _ _

theorem bare_sendDown (s : State) (k : Key) : (s.sendDown k).bare = s.bare := by
  rw [sendDown, bare_send]
  split
  · rfl
  · exact bare_sendArmed s

theorem bare_sendDowns (s : State) (ks : List Key) : (s.sendDowns ks).bare = s.bare :=
  bare_foldl bare_sendDown ks s

theorem bare_sendUps (s : State) (ks : List Key) : (s.sendUps ks).bare = s.bare :=
  bare_sendAll s _

theorem bare_holdDown (s : State) (id : Nat) (ks : List Key) : (s.holdDown id ks).bare = s.bare := by
  refine (bare_updatePress_outputs ?_ _ id).trans (bare_sendDowns s ks)
  exact fun p => rfl

theorem bare_arm (s : State) (id : Nat) (ks : List Key) : (s.arm id ks).bare = s.bare :=
  bare_note_sending rfl s

theorem bare_setFlag (s : State) (f : Flag) (value : Bool) : (s.setFlag f value).bare = s.bare := by
  unfold setFlag
  split <;> rfl

theorem bare_sendEvent (holder : Option Nat) (s : State) (e : Event) :
    (sendEvent holder s e).bare = s.bare := by
  cases e with
  | setFlag f value => exact bare_setFlag s f value
  | paste text => exact bare_send s _
  | stroke stroke =>
    cases holder with
    | none => rw [sendEvent, bare_sendUps, bare_sendDowns]
    | some id =>
      simp only [sendEvent]
      split
      · exact bare_arm s id _
      · exact bare_holdDown s id _

theorem bare_sendEvents (s : State) (holder : Option Nat) (es : List Event) :
    (s.sendEvents holder es).bare = s.bare :=
  bare_foldl (bare_sendEvent holder) es s

/-- Of an event list only the line that it was sent remains. -/
theorem bare_emit (s : State) (press rule : Nat) (stage : Stage) (holder : Option Nat) (es : List Event) :
    (s.emit press rule stage holder es).bare = s.bare.note (.emitted press rule stage) := by
  rw [emit, bare_sendEvents, bare_note rfl]

theorem bare_disarm (s : State) (a : Armed) : (s.disarm a).bare = s.bare := by
  simp only [disarm]
  split
  · rw [bare_sendUps]
    exact bare_note_sending rfl s
  · exact bare_note_sending rfl s

theorem bare_releaseOutputs (s : State) (p : Press) : (s.releaseOutputs p).bare = s.bare := by
  rw [releaseOutputs, bare_foldl bare_disarm]
  refine (bare_updatePress_outputs ?_ _ p.id).trans (bare_sendUps s p.outputs)
  exact fun q => rfl

theorem bare_forgetPending (s : State) (id : Nat) :
    (s.forgetPending id).bare = s.bare.forgetPending id := rfl

def noteAll (s : State) (is : List Incident) : State := { s with journal := s.journal ++ is }

theorem bare_foldl_note {α : Type} {f : State → α → State} {g : α → Incident}
    (hf : ∀ s a, (f s a).bare = s.bare.note (g a)) (l : List α) :
    ∀ s : State, (l.foldl f s).bare = s.bare.noteAll (l.map g) := by
  induction l with
  | nil =>
    intro s
    simp only [List.foldl_nil, List.map_nil, noteAll, List.append_nil]
  | cons a l ih =>
    intro s
    rw [List.foldl_cons, ih, hf]
    simp [noteAll, note, List.append_assoc]

end State

/-! ## Timers -/

section
variable (rules : List Manipulator)

def Press.fired (p : Press) : Press := { p with holdTimer := none, holdFired := true }

@[simp] theorem Press.bare_fired (p : Press) : p.fired.bare = p.bare.fired := rfl

theorem bare_fireCountdown (s : State) (p : Pending) (instant : Nat) :
    (fireCountdown rules s p instant).bare =
      ((s.bare.forgetPending p.press).note (.invoked p.rule instant)).note
        (.emitted p.press p.rule .invoked) := by
  rw [fireCountdown, State.bare_emit, State.bare_note rfl, State.bare_forgetPending]

/-- The press is marked, its hold events are sent, and halting ones take the delayed action away. -/
theorem bare_fireHold (s : State) {p : Press} {i : Nat} (hp : p.rule = some i) :
    (fireHold rules s p).bare =
      if halts (eventsOf rules i (·.onHold)) then
        ((s.bare.updatePress p.id Press.fired).note (.emitted p.id i .hold)).forgetPending p.id
      else (s.bare.updatePress p.id Press.fired).note (.emitted p.id i .hold) := by
  have h : (s.updatePress p.id Press.fired).bare = s.bare.updatePress p.id Press.fired :=
    State.bare_updatePress Press.bare_fired s p.id
  simp only [fireHold, hp]
  split
  · rw [State.bare_forgetPending, State.bare_emit]
    exact congrArg (fun b => (State.note b _).forgetPending p.id) h
  · rw [State.bare_emit]
    exact congrArg (fun b => State.note b _) h

theorem bare_fireHold_plain (s : State) {p : Press} (hp : p.rule = none) :
    (fireHold rules s p).bare = s.bare.updatePress p.id Press.fired := by
  simp only [fireHold, hp]
  exact State.bare_updatePress Press.bare_fired s p.id

/-! ## Presses that begin -/

/-- What the journal says of a countdown that ends because keys go down. -/
def ending (keys : List Key) (p : Pending) : Incident :=
  if p.owners.any (· ∈ keys) then .dropped p.press p.rule else .emitted p.press p.rule .canceled

theorem bare_endCountdown (keys : List Key) (s : State) (p : Pending) :
    (endCountdown rules keys s p).bare = s.bare.note (ending keys p) := by
  unfold endCountdown ending
  split
  · exact State.bare_note rfl s
  · exact State.bare_emit s _ _ _ _ _

def State.resting (s : State) : List Pending := s.pending.filter (·.deadline.isNone)

theorem resting_rests {s : State} {d : Pending} (hd : d ∈ s.resting) : d.deadline = none :=
  Option.isNone_iff_eq_none.1 (List.mem_filter.1 hd).2

def State.running (s : State) : List Pending := s.pending.filter (·.deadline.isSome)

theorem bare_interrupt (keys : List Key) (s : State) :
    (interrupt rules keys s).bare =
      { s.bare with
        presses := s.bare.presses.map Press.disturb
        pending := s.resting
        journal := s.bare.journal ++ s.running.map (ending keys) } := by
  rw [interrupt, State.bare_foldl_note (bare_endCountdown rules keys)]
  simp [State.noteAll, State.bare, State.resting, State.running, Function.comp_def]

theorem rule_cases (rule : Option Nat) :
    (∃ i m, rule = some i ∧ rules[i]? = some m) ∨ ∀ i, rule = some i → rules[i]? = none := by
  cases rule with
  | none => exact .inr fun i hi => by cases hi
  | some i =>
    cases hm : rules[i]? with
    | none => exact .inr fun j hj => by cases hj; exact hm
    | some m => exact .inl ⟨i, m, rfl, hm⟩

def begun (id : Nat) (keys : List Key) (rule : Nat) (instant : Nat) (m : Manipulator) : Press where
  id := id
  held := keys
  rule := some rule
  since := instant
  holdTimer := m.holdThreshold.map fun threshold => ⟨after instant threshold.toNat, id + 1⟩

def awaited (id : Nat) (keys : List Key) (rule : Nat) (m : Manipulator) : List Pending :=
  if m.delayed.isSome then [{ press := id, owners := keys, rule := rule }] else []

theorem beginRule_eq {s : State} {id : Nat} (hs : s.serial = id) (keys : List Key) (i instant : Nat)
    (m : Manipulator) :
    beginRule id keys i instant m s =
      ({ s with
        presses := s.presses ++ [begun id keys i instant m]
        pending := s.pending ++ awaited id keys i m
        serial := id + if m.holdThreshold.isSome then 1 else 0 } : State).emit
          id i .press (some id) m.onPress := by
  subst hs
  unfold beginRule awaitRelease awaited begun
  cases m.holdThreshold <;> cases m.delayed <;> simp

/-- The state in which a press begins: everything in flight is disturbed. -/
def disturbed (keys : List Key) (rule : Option Nat) (instant : Nat) (s : State) : State :=
  { interrupt rules keys (s.note (.dispatched (s.serial + 1) keys rule instant s.flags)) with
    serial := s.serial + 1 }

theorem dispatch_rule (keys : List Key) {i : Nat} {m : Manipulator} (hm : rules[i]? = some m)
    (instant : Nat) (s : State) :
    dispatch rules keys (some i) instant s =
      beginRule (s.serial + 1) keys i instant m (disturbed rules keys (some i) instant s) := by
  simp only [dispatch, hm, disturbed]

theorem dispatch_plain (keys : List Key) {rule : Option Nat} (hr : ∀ i, rule = some i → rules[i]? = none)
    (instant : Nat) (s : State) :
    dispatch rules keys rule instant s =
      beginPlain (s.serial + 1) keys instant (disturbed rules keys rule instant s) := by
  unfold dispatch
  cases rule with
  | none => rfl
  | some i => simp only [hr i rfl, disturbed]

theorem bare_disturbed (keys : List Key) (rule : Option Nat) (instant : Nat) (s : State) :
    (disturbed rules keys rule instant s).bare =
      { s.bare with
        presses := s.bare.presses.map Press.disturb
        pending := s.resting
        serial := s.serial + 1
        journal := s.bare.journal ++ .dispatched (s.serial + 1) keys rule instant s.flags ::
          s.running.map (ending keys) } := by
  have h := bare_interrupt rules keys (s.note (.dispatched (s.serial + 1) keys rule instant s.flags))
  rw [State.bare_note rfl] at h
  refine (congrArg (fun u : State => { u with serial := s.serial + 1 }) h).trans ?_
  simp [State.note, State.resting, State.running]

theorem State.bare_add (s : State) (p : Press) (more : List Pending) (n : Nat) :
    ({ s with presses := s.presses ++ [p], pending := s.pending ++ more, serial := n } : State).bare =
      { s.bare with
        presses := s.bare.presses ++ [p.bare], pending := s.bare.pending ++ more, serial := n } := by
  simp [State.bare]

/-- A press of a rule disturbs all others and ends the countdowns that run. -/
theorem bare_dispatch_rule (keys : List Key) {i : Nat} {m : Manipulator} (hm : rules[i]? = some m)
    (instant : Nat) (s : State) :
    (dispatch rules keys (some i) instant s).bare =
      { s.bare with
        presses := s.bare.presses.map Press.disturb ++ [begun (s.serial + 1) keys i instant m]
        pending := s.resting ++ awaited (s.serial + 1) keys i m
        serial := s.serial + 1 + if m.holdThreshold.isSome then 1 else 0
        journal := s.bare.journal ++ .dispatched (s.serial + 1) keys (some i) instant s.flags ::
          s.running.map (ending keys) ++ [.emitted (s.serial + 1) i .press] } := by
  have hs : (disturbed rules keys (some i) instant s).serial = s.serial + 1 := rfl
  rw [dispatch_rule rules keys hm, beginRule_eq hs, State.bare_emit, State.bare_add, bare_disturbed]
  simp [State.note, begun, Press.bare]

theorem bare_dispatch_plain (keys : List Key) {rule : Option Nat} (hr : ∀ i, rule = some i → rules[i]? = none)
    (instant : Nat) (s : State) :
    (dispatch rules keys rule instant s).bare =
      { s.bare with
        presses := s.bare.presses.map Press.disturb ++
          [{ id := s.serial + 1, held := keys, rule := none, since := instant }]
        pending := s.resting
        serial := s.serial + 1
        journal := s.bare.journal ++ .dispatched (s.serial + 1) keys rule instant s.flags ::
          s.running.map (ending keys) } := by
  have h := State.bare_add (disturbed rules keys rule instant s)
    { id := s.serial + 1, held := keys, rule := none, since := instant } [] (s.serial + 1)
  rw [bare_disturbed, List.append_nil, List.append_nil] at h
  rw [dispatch_plain rules keys hr, beginPlain, State.bare_holdDown]
  exact h

/-! ## Presses that end -/

theorem bare_startCountdown (id : Nat) (m : Manipulator) (instant : Nat) (s : State) :
    (startCountdown id m instant s).bare = startCountdown id m instant s.bare := by
  unfold startCountdown
  cases m.delayed <;> rfl

/-- A tap that halts takes the delayed action away; any other release starts its countdown. -/
theorem bare_endRule (p : Press) (i : Nat) (m : Manipulator) (instant : Nat) (s : State) :
    (endRule p i m instant s).bare =
      let b := if isTap m p instant then s.bare.note (.emitted p.id i .tap) else s.bare
      if isTap m p instant && halts m.onTap then b.forgetPending p.id
      else startCountdown p.id m instant (b.note (.emitted p.id i .release)) := by
  have h : (if isTap m p instant then s.emit p.id i .tap none m.onTap else s).bare =
      if isTap m p instant then s.bare.note (.emitted p.id i .tap) else s.bare := by
    split
    · exact State.bare_emit s _ _ _ _ _
    · rfl
  simp only [endRule]
  split
  · rw [State.bare_forgetPending, h]
  · rw [bare_startCountdown, State.bare_emit, h]

def State.drop (s : State) (id : Nat) : State := { s with presses := s.presses.filter fun q => q.id != id }

theorem State.bare_drop (s : State) (id : Nat) : (s.drop id).bare = s.bare.drop id := by
  simp only [drop, bare, List.filter_map]
  rfl

/-- What happened to a dropped press before does not matter. -/
theorem filter_update {f : Press → Press} (hf : ∀ p, (f p).id = p.id) (ps : List Press) (id : Nat) :
    (ps.map fun p => if p.id = id then f p else p).filter (fun q => q.id != id) =
      ps.filter fun q => q.id != id := by
  induction ps with
  | nil => rfl
  | cons p ps ih => by_cases h : p.id = id <;> simp [h, hf, ih]

theorem State.drop_updatePress {f : Press → Press} (hf : ∀ p, (f p).id = p.id) (s : State) (id : Nat) :
    (s.updatePress id f).drop id = s.drop id := by
  simp only [drop, updatePress, filter_update hf]

def Press.keep (ks : List Key) (p : Press) : Press := { p with held := ks }

@[simp] theorem Press.bare_keep (ks : List Key) (p : Press) : (p.keep ks).bare = p.bare.keep ks := rfl

/-- The bare state after the last key of a press of a rule went up, given the one without the press. -/
def settled (p : Press) (i : Nat) (m : Manipulator) (instant : Nat) (b : State) : State :=
  let t := if isTap m p instant then b.note (.emitted p.id i .tap) else b
  if isTap m p instant && halts m.onTap then t.forgetPending p.id
  else startCountdown p.id m instant (t.note (.emitted p.id i .release))

def endLines (p : Press) (i : Nat) (m : Manipulator) (instant : Nat) : List Incident :=
  (if isTap m p instant then [.emitted p.id i .tap] else []) ++
    if isTap m p instant && halts m.onTap then [] else [.emitted p.id i .release]

/-- The end of a press touches delayed actions, serial numbers and the journal. -/
theorem settled_eq (p : Press) (i : Nat) (m : Manipulator) (instant : Nat) (b : State) :
    ∃ n ps, b.serial ≤ n ∧ settled p i m instant b =
      { b with serial := n, pending := ps, journal := b.journal ++ endLines p i m instant } := by
  have hc : ∀ s : State, ∃ n ps, s.serial ≤ n ∧
      startCountdown p.id m instant s = { s with serial := n, pending := ps } := by
    intro s
    unfold startCountdown
    cases m.delayed with
    | none => exact ⟨s.serial, s.pending, Nat.le_refl _, rfl⟩
    | some d => exact ⟨_, _, Nat.le_succ _, rfl⟩
  unfold settled endLines
  cases isTap m p instant with
  | false => exact hc (b.note (.emitted p.id i .release))
  | true =>
    cases halts m.onTap with
    | true => exact ⟨b.serial, _, Nat.le_refl _, rfl⟩
    | false =>
      obtain ⟨n, ps, hn, h⟩ := hc ((b.note (.emitted p.id i .tap)).note (.emitted p.id i .release))
      refine ⟨n, ps, hn, h.trans ?_⟩
      simp [State.note]

theorem bare_endPress_rule {p : Press} {i : Nat} {m : Manipulator} (hp : p.rule = some i)
    (hm : rules[i]? = some m) (instant : Nat) (s : State) :
    (endPress rules p instant s).bare =
      settled p i m instant ((s.bare.drop p.id).note (.released p.id)) := by
  have h : ((s.drop p.id).note (.released p.id)).bare = (s.bare.drop p.id).note (.released p.id) := by
    rw [State.bare_note rfl, State.bare_drop]
  simp only [endPress, hp, hm]
  rw [bare_endRule]
  exact congrArg (settled p i m instant) h

theorem bare_endPress_plain {p : Press} (hp : ∀ i, p.rule = some i → rules[i]? = none) (instant : Nat)
    (s : State) :
    (endPress rules p instant s).bare = (s.bare.drop p.id).note (.released p.id) := by
  have h : ((s.drop p.id).note (.released p.id)).bare = (s.bare.drop p.id).note (.released p.id) := by
    rw [State.bare_note rfl, State.bare_drop]
  unfold endPress
  cases hr : p.rule with
  | none => exact h
  | some i =>
    simp only [hp i hr]
    exact h

theorem release_none {k : Key} {s : State} (h : s.holder? k = none) (instant : Nat) :
    release rules k instant s = s.note (.strayUp k) := by
  simp only [release, h]

theorem bare_release {k : Key} {s : State} {p : Press} (h : s.holder? k = some p) (instant : Nat) :
    (release rules k instant s).bare =
      if (p.held.filter (· != k)).isEmpty then (endPress rules p instant s).bare
      else s.bare.updatePress p.id (Press.keep (p.held.filter (· != k))) := by
  have hr : ((s.updatePress p.id (Press.keep (p.held.filter (· != k)))).releaseOutputs p).bare =
      s.bare.updatePress p.id (Press.keep (p.held.filter (· != k))) := by
    rw [State.bare_releaseOutputs]
    exact State.bare_updatePress (Press.bare_keep _) s p.id
  have hd := State.drop_updatePress (f := Press.keep (p.held.filter (· != k))) (fun _ => rfl) s.bare p.id
  simp only [release, h]
  split
  · obtain ⟨i, m, hp, hm⟩ | hp := rule_cases rules p.rule
    · rw [bare_endPress_rule rules hp hm, bare_endPress_rule rules hp hm, ← hd, ← hr]
      rfl
    · rw [bare_endPress_plain rules hp, bare_endPress_plain rules hp, ← hd, ← hr]
      rfl
  · exact hr

/-- The press that ends is dropped, any other one keeps the other keys. -/
theorem release_presses {k : Key} {s : State} {p : Press} (h : s.holder? k = some p) (instant : Nat) :
    (release rules k instant s).bare.presses =
      if (p.held.filter (· != k)).isEmpty then (s.bare.drop p.id).presses
      else (s.bare.updatePress p.id (Press.keep (p.held.filter (· != k)))).presses := by
  rw [bare_release rules h]
  split
  · obtain ⟨i, m, hr, hm⟩ | hr := rule_cases rules p.rule
    · obtain ⟨n, ps, -, he⟩ := settled_eq p i m instant ((s.bare.drop p.id).note (.released p.id))
      rw [bare_endPress_rule rules hr hm, he]
      rfl
    · rw [bare_endPress_plain rules hr]
      rfl
  · rfl

end

end KeyRules.Engine
