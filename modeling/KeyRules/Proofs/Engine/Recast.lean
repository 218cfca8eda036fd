import KeyRules.Proofs.Engine.Effects

/-!
# States told otherwise

The engine never reads what was output, nor the journal, and once an input has moved the clock it reads the clock only
for an accepted key. Instants are only compared with each other. So every operation commutes with a change of these
(`State.told`): all instants are moved by the same time, earlier output is put in front, the clock is set, and
complaints about late events are left out. Deadlines must not run into the end of the clock (`Movable`).
-/

namespace KeyRules.Engine

/-- The line complains about an event that came late. -/
def Incident.isLate : Incident → Bool
  | late _ _ => true
  | _ => false

namespace State

/-- The state without complaints about late events. -/
def punctual (s : State) : State := { s with journal := s.journal.filter fun i => !i.isLate }

/-- The same state after earlier output and at another time. -/
def recast (s : State) (earlier : List Output) (now : Nat) : State :=
  { s.punctual with output := earlier ++ s.output, now := now }

end State

/-! ## Instants moved -/

/-- Deadlines that are set from an instant on move along with it. -/
def Movable (delay instant : Nat) : Prop :=
  ∀ t : Millis, after (instant + delay) t.toNat = after instant t.toNat + delay

theorem movable_zero (instant : Nat) : Movable 0 instant := fun _ => rfl

/-- The clock does not end before the longest time of a rule is over. -/
theorem movable_of_room {delay instant : Nat} (room : instant + delay + UInt32.size ≤ UInt64.size) :
    Movable delay instant := by
  intro t
  have ht := t.toNat_lt
  simp only [UInt32.size, UInt64.size] at room
  simp only [after, lastInstant, UInt64.size]
  omega

def Deadline.later (delay : Nat) (d : Deadline) : Deadline := { d with instant := d.instant + delay }

def Press.later (delay : Nat) (p : Press) : Press :=
  { p with since := p.since + delay, holdTimer := p.holdTimer.map (Deadline.later delay) }

def Pending.later (delay : Nat) (d : Pending) : Pending :=
  { d with deadline := d.deadline.map (Deadline.later delay) }

def Timer.later (delay : Nat) : Timer → Timer
  | countdown d => countdown (d.later delay)
  | hold p => hold (p.later delay)

def keyLater (delay : Nat) (k : Key × Nat) : Key × Nat := (k.1, k.2 + delay)

def Buffer.later (delay : Nat) (b : Buffer) : Buffer :=
  { b with keys := b.keys.map (keyLater delay), deadline := b.deadline.later delay }

def Incident.later (delay : Nat) : Incident → Incident
  | late instant now => late (instant + delay) (now + delay)
  | accepted key instant => accepted key (instant + delay)
  | matched rule trigger buffer => matched rule trigger (buffer.later delay)
  | dispatched press keys rule instant flags => dispatched press keys rule (instant + delay) flags
  | fired d => fired (d.later delay)
  | windowClosed d => windowClosed (d.later delay)
  | invoked rule instant => invoked rule (instant + delay)
  | timeless => timeless

theorem press_later_zero : Press.later 0 = id := by
  funext p
  cases p with
  | mk _ _ _ _ _ _ timer _ => cases timer <;> rfl

theorem pending_later_zero : Pending.later 0 = id := by
  funext d
  cases d with
  | mk _ _ _ deadline => cases deadline <;> rfl

theorem buffer_later_zero : Buffer.later 0 = id := by
  funext b
  have keys : b.keys.map (keyLater 0) = b.keys := List.map_id' b.keys
  show ({ b with keys := b.keys.map (keyLater 0) } : Buffer) = b
  rw [keys]

theorem incident_later_zero : Incident.later 0 = id := by
  funext i
  cases i with
  | matched rule trigger b => exact congrArg (Incident.matched rule trigger) (congrFun buffer_later_zero b)
  | _ => rfl

@[simp] theorem Deadline.before_later (delay : Nat) (d e : Deadline) :
    (d.later delay).before (e.later delay) = d.before e := by
  show (decide (d.instant + delay < e.instant + delay) ||
    (d.instant + delay == e.instant + delay && decide (d.serial < e.serial))) = d.before e
  rw [Bool.eq_iff_iff]
  simp only [before, Bool.or_eq_true, Bool.and_eq_true, decide_eq_true_eq, beq_iff_eq]
  omega

@[simp] theorem Incident.later_isLate (delay : Nat) (i : Incident) : (i.later delay).isLate = i.isLate := by
  cases i <;> rfl

/-- How a state is told: so much later, after this output, and at this time. -/
structure Telling where
  delay : Nat
  earlier : List Output
  now : Nat

namespace State

/-- The state as it is told. -/
def told (s : State) (w : Telling) : State :=
  { s with
    presses := s.presses.map (Press.later w.delay)
    pending := s.pending.map (Pending.later w.delay)
    buffer := s.buffer.map (Buffer.later w.delay)
    output := w.earlier ++ s.output
    now := w.now
    journal := (s.journal.filter fun i => !i.isLate).map (Incident.later w.delay) }

theorem recast_eq_told (s : State) (earlier : List Output) (now : Nat) :
    s.recast earlier now = s.told ⟨0, earlier, now⟩ := by
  simp only [recast, punctual, told, press_later_zero, pending_later_zero, buffer_later_zero, incident_later_zero,
    List.map_id, Option.map_id_fun, id_eq]

theorem punctual_eq (s : State) : s.punctual = s.recast [] s.now := rfl

theorem recast_recast (s : State) (first second : List Output) (then_now now : Nat) :
    (s.recast first then_now).recast second now = s.recast (second ++ first) now := by
  simp [recast, punctual, List.append_assoc]

variable {w : Telling}

theorem recast_told (s : State) (earlier : List Output) (now : Nat) :
    (s.told w).recast earlier now = s.told ⟨w.delay, earlier ++ w.earlier, now⟩ := by
  simp [recast, punctual, told, List.filter_map, Function.comp_def]

/-- The clock and its complaints are not told. -/
theorem told_tick (s : State) (instant : Nat) : (s.tick instant).told w = s.told w := by
  unfold tick
  split
  · simp [note, told, Incident.isLate]
  · rfl

theorem told_note {i : Incident} (hi : i.isLate = false) (s : State) :
    (s.note i).told w = (s.told w).note (i.later w.delay) := by
  simp [note, told, List.filter_append, hi]

theorem told_foldl {α : Type} {f : State → α → State} (hf : ∀ s a, (f s a).told w = f (s.told w) a) (l : List α) :
    ∀ s : State, (l.foldl f s).told w = l.foldl f (s.told w) := by
  induction l with
  | nil => exact fun _ => rfl
  | cons a l ih =>
    intro s
    rw [List.foldl_cons, ih, hf, List.foldl_cons]

theorem told_foldl_map {α : Type} {f : State → α → State} {move : α → α} (l : List α) :
    (∀ s, ∀ a ∈ l, (f s a).told w = f (s.told w) (move a)) →
      ∀ s : State, (l.foldl f s).told w = (l.map move).foldl f (s.told w) := by
  induction l with
  | nil => exact fun _ _ => rfl
  | cons a l ih =>
    intro hf s
    rw [List.foldl_cons, ih fun s b hb => hf s b (List.mem_cons_of_mem a hb), hf s a List.mem_cons_self, List.map_cons,
      List.foldl_cons]

/-! ## Sending -/

theorem told_send (s : State) (o : Output) : (s.send o).told w = (s.told w).send o := by
  rw [send, told_note rfl]
  simp [send, told, Incident.later]

theorem told_sendAll (s : State) (os : List Output) : (s.sendAll os).told w = (s.told w).sendAll os :=
  told_foldl told_send os s

theorem told_sendWaiting (s : State) (a : Armed) : (s.sendWaiting a).told w = (s.told w).sendWaiting a := by
  rw [sendWaiting, told_sendAll, told_note rfl]
  rfl

theorem told_sendArmed (s : State) : s.sendArmed.told w = (s.told w).sendArmed :=
  told_foldl told_sendWaiting _ _

theorem told_sendDown (s : State) (k : Key) : (s.sendDown k).told w = (s.told w).sendDown k := by
  rw [sendDown, told_send, sendDown]
  split
  · rfl
  · rw [told_sendArmed]

theorem told_sendDowns (s : State) (ks : List Key) : (s.sendDowns ks).told w = (s.told w).sendDowns ks :=
  told_foldl told_sendDown ks s

theorem told_sendUps (s : State) (ks : List Key) : (s.sendUps ks).told w = (s.told w).sendUps ks :=
  told_sendAll s _

theorem told_updatePress {f : Press → Press} (hf : ∀ p : Press, (f p).later w.delay = f (p.later w.delay)) (s : State)
    (id : Nat) : (s.updatePress id f).told w = (s.told w).updatePress id f := by
  have moved : (s.presses.map fun p => if p.id = id then f p else p).map (Press.later w.delay) =
      (s.presses.map (Press.later w.delay)).map fun p => if p.id = id then f p else p := by
    rw [List.map_map, List.map_map]
    refine List.map_congr_left fun p _ => ?_
    show (if p.id = id then f p else p).later w.delay = if p.id = id then f (p.later w.delay) else p.later w.delay
    split
    · exact hf p
    · rfl
  exact congrArg (fun ps => ({ s.told w with presses := ps } : State)) moved

theorem told_forgetPending (s : State) (id : Nat) : (s.forgetPending id).told w = (s.told w).forgetPending id := by
  have moved : (s.pending.filter fun d => d.press != id).map (Pending.later w.delay) =
      (s.pending.map (Pending.later w.delay)).filter fun d => d.press != id := by
    rw [List.filter_map]
    rfl
  exact congrArg (fun ds => ({ s.told w with pending := ds } : State)) moved

theorem told_setFlag (s : State) (f : Flag) (value : Bool) : (s.setFlag f value).told w = (s.told w).setFlag f value := by
  unfold setFlag
  split <;> rfl

theorem told_holdDown (s : State) (id : Nat) (ks : List Key) :
    (s.holdDown id ks).told w = (s.told w).holdDown id ks := by
  rw [holdDown, told_updatePress, told_sendDowns, holdDown]
  exact fun _ => rfl

theorem told_arm (s : State) (id : Nat) (ks : List Key) : (s.arm id ks).told w = (s.told w).arm id ks := by
  have h : (s.note (.armed id ks)).told w = (s.told w).note (.armed id ks) := told_note rfl s
  exact congrArg (fun t : State => ({ t with armed := s.armed ++ [{ press := id, keys := ks }] } : State)) h

theorem told_sendEvent (holder : Option Nat) (s : State) (e : Event) :
    (sendEvent holder s e).told w = sendEvent holder (s.told w) e := by
  cases e with
  | setFlag f value => exact told_setFlag s f value
  | paste text => exact told_send s _
  | stroke stroke =>
    cases holder with
    | none => rw [sendEvent, told_sendUps, told_sendDowns, sendEvent]
    | some id =>
      simp only [sendEvent]
      split
      · exact told_arm s id _
      · exact told_holdDown s id _

theorem told_sendEvents (holder : Option Nat) (s : State) (es : List Event) :
    (s.sendEvents holder es).told w = (s.told w).sendEvents holder es := told_foldl (told_sendEvent holder) es s

theorem told_emit (s : State) (press rule : Nat) (stage : Stage) (holder : Option Nat) (es : List Event) :
    (s.emit press rule stage holder es).told w = (s.told w).emit press rule stage holder es := by
  rw [emit, told_sendEvents, told_note rfl]
  rfl

theorem told_disarm (s : State) (a : Armed) : (s.disarm a).told w = (s.told w).disarm a := by
  simp only [disarm]
  split
  · rw [told_sendUps, told_note rfl]
    rfl
  · exact told_note rfl s

theorem told_releaseOutputs (s : State) (p : Press) :
    (s.releaseOutputs p).told w = (s.told w).releaseOutputs (p.later w.delay) := by
  have cleared : ((s.sendUps p.outputs).updatePress p.id fun p => { p with outputs := [] }).told w =
      ((s.told w).sendUps p.outputs).updatePress p.id fun p => { p with outputs := [] } := by
    rw [told_updatePress, told_sendUps]
    exact fun _ => rfl
  have same : (s.told w).releaseOutputs (p.later w.delay) = (s.told w).releaseOutputs p := rfl
  rw [same]
  unfold releaseOutputs
  simp only
  rw [told_foldl told_disarm, ← cleared]
  rfl

end State

section
variable (rules : List Manipulator) {w : Telling}

/-! ## Timers -/

def timerLater (delay : Nat) (t : Deadline × Timer) : Deadline × Timer := (t.1.later delay, t.2.later delay)

theorem State.told_timers (s : State) : (s.told w).timers = s.timers.map (timerLater w.delay) := by
  simp only [timers, told, List.map_append, List.map_filterMap, List.filterMap_map]
  congr 1
  · refine congrArg (fun f => s.pending.filterMap f) (funext fun d => ?_)
    cases h : d.deadline <;> simp [Pending.later, timerLater, Timer.later, h]
  · refine congrArg (fun f => s.presses.filterMap f) (funext fun p => ?_)
    cases h : p.holdTimer <;> simp [Press.later, timerLater, Timer.later, h]

theorem earliest_later (delay : Nat) (ts : List (Deadline × Timer)) :
    earliest (ts.map (timerLater delay)) = (earliest ts).map (timerLater delay) := by
  induction ts with
  | nil => rfl
  | cons t ts ih =>
    rw [List.map_cons, earliest, ih, earliest]
    cases earliest ts with
    | none => rfl
    | some u =>
      have same : (timerLater delay u).1.before (timerLater delay t).1 = u.1.before t.1 := Deadline.before_later delay _ _
      simp only [Option.map_some, same]
      split <;> rfl

theorem told_fireHold (s : State) (p : Press) :
    (fireHold rules s p).told w = fireHold rules (s.told w) (p.later w.delay) := by
  have same : (p.later w.delay).rule = p.rule := rfl
  have fired : (s.updatePress p.id Press.fired).told w = (s.told w).updatePress p.id Press.fired :=
    State.told_updatePress (f := Press.fired) (fun _ => rfl) s p.id
  cases hr : p.rule with
  | none =>
    rw [hr] at same
    simp only [fireHold, hr, same]
    exact fired
  | some i =>
    rw [hr] at same
    simp only [fireHold, hr, same]
    split
    · rw [State.told_forgetPending, State.told_emit]
      exact congrArg (fun t : State => (t.emit p.id i .hold (some p.id) _).forgetPending p.id) fired
    · rw [State.told_emit]
      exact congrArg (fun t : State => t.emit p.id i .hold (some p.id) _) fired

theorem told_fire (s : State) (d : Deadline) (timer : Timer) :
    (fire rules s d timer).told w = fire rules (s.told w) (d.later w.delay) (timer.later w.delay) := by
  cases timer with
  | countdown p =>
    rw [fire, fireCountdown, State.told_emit, State.told_note rfl, State.told_forgetPending, State.told_note rfl]
    rfl
  | hold p =>
    rw [fire, told_fireHold, State.told_note rfl]
    rfl

theorem told_fireWhile {isDue moved : Deadline → Bool} (due : ∀ d : Deadline, moved (d.later w.delay) = isDue d)
    (n : Nat) :
    ∀ s : State, (fireWhile rules isDue n s).told w = fireWhile rules moved n (s.told w) := by
  induction n with
  | zero => exact fun _ => rfl
  | succ n ih =>
    intro s
    simp only [fireWhile, State.told_timers, earliest_later]
    cases earliest s.timers with
    | none => rfl
    | some t =>
      simp only [Option.map_some, timerLater, due]
      split
      · rw [ih, told_fire]
      · rfl

theorem told_settle {isDue : Deadline → Bool} (moved : Deadline → Bool)
    (due : ∀ d : Deadline, moved (d.later w.delay) = isDue d) (s : State) :
    (settle rules isDue s).told w = settle rules moved (s.told w) := by
  rw [settle, told_fireWhile rules due, settle, State.told_timers, List.length_map]

theorem told_settleBy (instant : Nat) (s : State) :
    (settleBy rules instant s).told w = settleBy rules (instant + w.delay) (s.told w) :=
  told_settle rules _ (fun d => by simp [Deadline.later]) s

/-! ## Presses -/

theorem told_endCountdown (keys : List Key) (s : State) (p : Pending) :
    (endCountdown rules keys s p).told w = endCountdown rules keys (s.told w) (p.later w.delay) := by
  have same : endCountdown rules keys (s.told w) (p.later w.delay) = endCountdown rules keys (s.told w) p := rfl
  rw [same]
  unfold endCountdown
  split
  · exact State.told_note rfl s
  · exact State.told_emit s _ _ _ _ _

theorem told_interrupt (keys : List Key) (s : State) :
    (interrupt rules keys s).told w = interrupt rules keys (s.told w) := by
  have running : (s.told w).pending.filter (·.deadline.isSome) =
      (s.pending.filter (·.deadline.isSome)).map (Pending.later w.delay) := by
    simp [State.told, List.filter_map, Function.comp_def, Pending.later]
  have calm : ({ s with
      presses := s.presses.map Press.disturb
      pending := s.pending.filter (·.deadline.isNone) } : State).told w =
      { s.told w with
        presses := (s.told w).presses.map Press.disturb
        pending := (s.told w).pending.filter (·.deadline.isNone) } := by
    simp [State.told, List.filter_map, Function.comp_def, Pending.later, Press.later, Press.disturb]
  unfold interrupt
  simp only
  rw [State.told_foldl_map _ fun s d _ => told_endCountdown rules keys s d, running, calm]

theorem told_awaitRelease (id : Nat) (keys : List Key) (rule : Nat) (m : Manipulator) (s : State) :
    (awaitRelease id keys rule m s).told w = awaitRelease id keys rule m (s.told w) := by
  unfold awaitRelease
  split
  · simp [State.told, Pending.later]
  · rfl

theorem told_beginRule (id : Nat) (keys : List Key) (rule : Nat) {instant : Nat} (movable : Movable w.delay instant)
    (m : Manipulator) (s : State) :
    (beginRule id keys rule instant m s).told w = beginRule id keys rule (instant + w.delay) m (s.told w) := by
  unfold beginRule
  simp only
  rw [State.told_emit, ← told_awaitRelease]
  cases m.holdThreshold with
  | none => simp [State.told, Press.later]
  | some threshold => simp [State.told, Press.later, Deadline.later, movable threshold]

theorem told_beginPlain (id : Nat) (keys : List Key) (instant : Nat) (s : State) :
    (beginPlain id keys instant s).told w = beginPlain id keys (instant + w.delay) (s.told w) := by
  unfold beginPlain
  simp only
  rw [State.told_holdDown]
  simp [State.told, Press.later]

theorem told_dispatch (keys : List Key) (rule : Option Nat) {instant : Nat} (movable : Movable w.delay instant)
    (s : State) :
    (dispatch rules keys rule instant s).told w = dispatch rules keys rule (instant + w.delay) (s.told w) := by
  have hi : (interrupt rules keys (s.note (.dispatched (s.serial + 1) keys rule instant s.flags))).told w =
      interrupt rules keys ((s.told w).note (.dispatched (s.serial + 1) keys rule (instant + w.delay) s.flags)) := by
    rw [told_interrupt, State.told_note rfl, Incident.later]
  have numbered : ({ interrupt rules keys (s.note (.dispatched (s.serial + 1) keys rule instant s.flags)) with
      serial := s.serial + 1 } : State).told w =
      { interrupt rules keys ((s.told w).note
        (.dispatched (s.serial + 1) keys rule (instant + w.delay) s.flags)) with serial := s.serial + 1 } :=
    congrArg (fun t : State => ({ t with serial := s.serial + 1 } : State)) hi
  unfold dispatch
  cases rule with
  | none =>
    simp only
    rw [told_beginPlain, numbered]
    rfl
  | some i =>
    simp only
    split
    · rw [told_beginPlain, numbered]
      rfl
    · rw [told_beginRule _ _ _ movable, numbered]
      rfl

theorem isTap_later (m : Manipulator) (p : Press) (delay instant : Nat) :
    isTap m (p.later delay) (instant + delay) = isTap m p instant := by
  simp only [isTap, Press.later, Nat.add_sub_add_right]

theorem told_startCountdown (id : Nat) {instant : Nat} (movable : Movable w.delay instant) (m : Manipulator)
    (s : State) :
    (startCountdown id m instant s).told w = startCountdown id m (instant + w.delay) (s.told w) := by
  unfold startCountdown
  cases m.delayed with
  | none => rfl
  | some l =>
    simp only [State.told, movable l.delay, List.map_map]
    congr 1
    refine List.map_congr_left fun d _ => ?_
    have same : (d.later w.delay).deadline = none ↔ d.deadline = none := Option.map_eq_none_iff
    simp only [Function.comp_apply, same]
    show (if d.press = id ∧ d.deadline = none then _ else d).later w.delay =
      if d.press = id ∧ d.deadline = none then _ else d.later w.delay
    split <;> rfl

theorem told_endRule (p : Press) (i : Nat) (m : Manipulator) {instant : Nat} (movable : Movable w.delay instant)
    (s : State) :
    (endRule p i m instant s).told w = endRule (p.later w.delay) i m (instant + w.delay) (s.told w) := by
  have ht : (if isTap m p instant then s.emit p.id i .tap none m.onTap else s).told w =
      if isTap m p instant then (s.told w).emit p.id i .tap none m.onTap else s.told w := by
    split
    · exact State.told_emit s _ _ _ _ _
    · rfl
  have same : (p.later w.delay).id = p.id := rfl
  unfold endRule
  simp only [isTap_later, same]
  rw [← ht]
  split
  · exact State.told_forgetPending _ _
  · rw [told_startCountdown _ movable, State.told_emit]

theorem told_endPress (p : Press) {instant : Nat} (movable : Movable w.delay instant) (s : State) :
    (endPress rules p instant s).told w = endPress rules (p.later w.delay) (instant + w.delay) (s.told w) := by
  have gone : (s.presses.filter fun q => q.id != p.id).map (Press.later w.delay) =
      (s.told w).presses.filter fun q => q.id != p.id := by
    show _ = (s.presses.map (Press.later w.delay)).filter fun q => q.id != p.id
    rw [List.filter_map]
    rfl
  have hr : (({ s with presses := s.presses.filter fun q => q.id != p.id } : State).note (.released p.id)).told w =
      ({ s.told w with presses := (s.told w).presses.filter fun q => q.id != p.id } : State).note (.released p.id) := by
    rw [State.told_note rfl, ← gone]
    rfl
  have same : (p.later w.delay).rule = p.rule ∧ (p.later w.delay).id = p.id := ⟨rfl, rfl⟩
  unfold endPress
  simp only [same, ← hr]
  cases p.rule with
  | none => rfl
  | some i =>
    simp only
    split
    · rfl
    · exact told_endRule p i _ movable _

theorem State.told_holder (s : State) (k : Key) : (s.told w).holder? k = (s.holder? k).map (Press.later w.delay) := by
  show (s.presses.map (Press.later w.delay)).reverse.find? (fun p => p.held.contains k) = _
  rw [← List.map_reverse, List.find?_map]
  rfl

theorem told_release (k : Key) {instant : Nat} (movable : Movable w.delay instant) (s : State) :
    (release rules k instant s).told w = release rules k (instant + w.delay) (s.told w) := by
  unfold release
  rw [State.told_holder]
  cases s.holder? k with
  | none => exact State.told_note rfl s
  | some p =>
    have same : (p.later w.delay).held = p.held ∧ (p.later w.delay).id = p.id := ⟨rfl, rfl⟩
    have kept : (s.updatePress p.id (Press.keep (p.held.filter (· != k)))).told w =
        (s.told w).updatePress p.id (Press.keep (p.held.filter (· != k))) :=
      State.told_updatePress (f := Press.keep _) (fun _ => rfl) s p.id
    have released : ((s.updatePress p.id (Press.keep (p.held.filter (· != k)))).releaseOutputs p).told w =
        ((s.told w).updatePress p.id (Press.keep (p.held.filter (· != k)))).releaseOutputs (p.later w.delay) := by
      rw [State.told_releaseOutputs, kept]
    simp only [Option.map_some, same]
    split
    · rw [told_endPress rules p movable]
      exact congrArg (endPress rules (p.later w.delay) (instant + w.delay)) released
    · exact released

/-! ## Keys held back -/

theorem told_startBuffer (k : Key) {instant : Nat} (movable : Movable w.delay instant) (s : State) :
    (startBuffer rules k instant s).told w = startBuffer rules k (instant + w.delay) (s.told w) := by
  have same : openCandidates rules (s.told w) k = openCandidates rules s k := rfl
  have ends : ∀ window : Option Millis, after (instant + w.delay) ((window.map UInt32.toNat).getD 0) =
      after instant ((window.map UInt32.toNat).getD 0) + w.delay
    | none => movable 0
    | some t => movable t
  unfold startBuffer
  simp only
  rw [State.told_note rfl, same, ends]
  rfl

theorem told_press (k : Key) {instant : Nat} (movable : Movable w.delay instant) (simultaneous : Bool) (s : State) :
    (press rules k instant simultaneous s).told w = press rules k (instant + w.delay) simultaneous (s.told w) := by
  have hf : findRule rules (s.told w) k simultaneous = findRule rules s k simultaneous := rfl
  unfold press
  rw [hf]
  cases findRule rules s k simultaneous with
  | none => exact told_dispatch rules _ _ movable s
  | some i =>
    simp only
    split
    · exact told_startBuffer rules k movable s
    · exact told_dispatch rules _ _ movable s

theorem told_replay {k : Key × Nat} (movable : Movable w.delay k.2) (s : State) :
    (replay rules s k).told w = replay rules (s.told w) (keyLater w.delay k) := by
  rw [replay, told_press rules _ movable, told_settleBy]
  rfl

theorem told_flush {b : Buffer} (movable : ∀ k ∈ b.keys, Movable w.delay k.2) (s : State) :
    (flush rules b s).told w = flush rules (b.later w.delay) (s.told w) := by
  have size : (b.later w.delay).keys.length = b.keys.length := List.length_map _
  unfold flush
  rw [State.told_foldl_map _ fun s k hk => told_replay rules (movable k hk) s, State.told_note rfl, size]
  rfl

theorem Buffer.later_names (delay : Nat) (b : Buffer) : (b.later delay).keys.map (·.1) = b.keys.map (·.1) := by
  simp [later, keyLater, Function.comp_def]

/-- With a key in the buffer its instant is the one that counts. -/
theorem Buffer.later_lastKey {b : Buffer} (some_key : b.keys ≠ []) (delay now moved : Nat) :
    (b.later delay).lastKey moved = b.lastKey now + delay := by
  simp [lastKey, later, keyLater, List.getLast?_eq_some_getLast some_key]

theorem Buffer.lastKey_movable {b : Buffer} (some_key : b.keys ≠ []) {delay : Nat}
    (movable : ∀ k ∈ b.keys, Movable delay k.2) (now : Nat) : Movable delay (b.lastKey now) := by
  have last : b.lastKey now = (b.keys.getLast some_key).2 := by
    simp [lastKey, List.getLast?_eq_some_getLast some_key]
  rw [last]
  exact movable _ (List.getLast_mem some_key)

theorem complete_later (delay : Nat) (b : Buffer) : complete? rules (b.later delay) = complete? rules b := by
  have same : isComplete rules (b.later delay) = isComplete rules b := by
    funext i
    simp [isComplete, Buffer.later]
  rw [complete?, same]
  rfl

theorem isWaiting_later (delay : Nat) (b : Buffer) (i : Nat) :
    isWaiting rules (b.later delay) i = isWaiting rules b i := by
  simp [isWaiting, isComplete, Buffer.later]

section
variable {b : Buffer} (some_key : b.keys ≠ []) (movable : ∀ k ∈ b.keys, Movable w.delay k.2)
include some_key movable

theorem told_finish (i : Nat) (s : State) :
    (finish rules b i s).told w = finish rules (b.later w.delay) i (s.told w) := by
  have hh : (handOver rules b i s).told w = handOver rules (b.later w.delay) i (s.told w) := by
    unfold handOver
    split
    · rfl
    · exact State.told_note rfl _
  rw [finish_eq, told_dispatch rules _ _ (b.lastKey_movable some_key movable s.now), hh, finish_eq, Buffer.later_names,
    Buffer.later_lastKey some_key]

theorem told_closeWindow (s : State) :
    (closeWindow rules b s).told w = closeWindow rules (b.later w.delay) (s.told w) := by
  unfold closeWindow
  simp only
  rw [complete_later]
  split
  · rw [told_finish rules some_key movable, State.told_note rfl]
    rfl
  · rw [told_flush rules movable, State.told_note rfl]
    rfl

theorem told_tryFinish (s : State) : (tryFinish rules b s).told w = tryFinish rules (b.later w.delay) (s.told w) := by
  unfold tryFinish
  rw [complete_later]
  split
  · rw [isWaiting_later]
    split
    · rfl
    · exact told_finish rules some_key movable _ s
  · rfl

end

theorem told_extend {b : Buffer} (movable : ∀ k ∈ b.keys, Movable w.delay k.2) (k : Key) {instant : Nat}
    (fresh : Movable w.delay instant) (s : State) :
    (extend rules b k instant s).told w = extend rules (b.later w.delay) k (instant + w.delay) (s.told w) := by
  unfold extend
  simp only
  rw [Buffer.later_names]
  have same : (b.later w.delay).candidates = b.candidates := rfl
  rw [same]
  split
  · rw [told_press rules _ fresh, told_flush rules movable]
  · rw [told_tryFinish rules (by simp)]
    · simp [State.told, Buffer.later, keyLater]
    · intro j hj
      rcases List.mem_append.1 hj with hj | hj
      · exact movable j hj
      · rw [List.mem_singleton.1 hj]
        exact fresh

/-- Deadlines that the keys held back will set move along. -/
def State.HoldsMovable (delay : Nat) (s : State) : Prop := ∀ b, s.buffer = some b → ∀ k ∈ b.keys, Movable delay k.2

theorem holdsMovable_zero (s : State) : s.HoldsMovable 0 := fun _ _ k _ => movable_zero k.2

theorem told_fireDue {s : State} (opened : ∀ b, s.buffer = some b → b.keys ≠ []) (held : s.HoldsMovable w.delay)
    (instant : Nat) : (fireDue rules instant s).told w = fireDue rules (instant + w.delay) (s.told w) := by
  have kept : (s.told w).buffer = s.buffer.map (Buffer.later w.delay) := rfl
  unfold fireDue
  rw [kept]
  cases hb : s.buffer with
  | none => exact told_settleBy rules instant s
  | some b =>
    have closes : (b.later w.delay).deadline.instant ≤ instant + w.delay ↔ b.deadline.instant ≤ instant :=
      Nat.add_le_add_iff_right
    simp only [Option.map_some, closes]
    split
    · rw [told_settleBy, told_closeWindow rules (opened b hb) (held b hb),
        told_settle rules (fun d => !(b.later w.delay).deadline.before d) fun d =>
          congrArg not (Deadline.before_later w.delay b.deadline d)]
    · exact told_settleBy rules instant s

theorem Buffer.later_holds (delay : Nat) (b : Buffer) (k : Key) :
    ((b.later delay).keys.any fun (j, _) => j == k) = b.keys.any fun (j, _) => j == k := by
  simp [later, keyLater, Function.comp_def]

theorem State.told_isDown (s : State) (k : Key) : (s.told w).isDown k = s.isDown k := by
  have pressed : (s.told w).presses.any (fun p => p.held.contains k) = s.presses.any fun p => p.held.contains k :=
    List.any_map
  have kept : (s.told w).buffer = s.buffer.map (Buffer.later w.delay) := rfl
  unfold isDown
  rw [pressed, kept]
  cases s.buffer with
  | none => rfl
  | some b => exact congrArg (_ || ·) (b.later_holds w.delay k)

theorem told_flushHolding {s : State} (held : s.HoldsMovable w.delay) (k : Key) :
    (flushHolding rules k s).told w = flushHolding rules k (s.told w) := by
  have kept : (s.told w).buffer = s.buffer.map (Buffer.later w.delay) := rfl
  unfold flushHolding
  rw [kept]
  cases hb : s.buffer with
  | none => rfl
  | some b =>
    simp only [Option.map_some, Buffer.later_holds]
    split
    · exact told_flush rules (held b hb) s
    · rfl

/-! ## At the same time -/

theorem State.recast_tick (s : State) (instant : Nat) (earlier : List Output) (now : Nat) :
    (s.tick instant).recast earlier now = s.recast earlier now := by
  rw [recast_eq_told, told_tick, recast_eq_told]

theorem recast_fireDue {s : State} (opened : ∀ b, s.buffer = some b → b.keys ≠ []) (instant : Nat)
    (earlier : List Output) (now : Nat) :
    (fireDue rules instant s).recast earlier now = fireDue rules instant (s.recast earlier now) := by
  rw [State.recast_eq_told, State.recast_eq_told]
  exact told_fireDue rules (w := ⟨0, earlier, now⟩) opened (holdsMovable_zero s) instant

end

end KeyRules.Engine
