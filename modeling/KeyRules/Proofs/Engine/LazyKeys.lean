import KeyRules.Proofs.Engine.Presses

/-!
# Lazy keys

The lazy keys of presses wait until a key that is no modifier takes them along. What sending does to them depends on
the lazy keys alone: which are armed, and for which presses some were sent (`LazyKeys`). Each operation is one or two
steps on these, and a press only ever meets its own lazy keys.
-/

namespace KeyRules.Engine

def Incident.applies? : Incident → Option Nat
  | applied press _ => some press
  | _ => none

/-- The presses whose lazy keys were sent. -/
def appliedTo (journal : List Incident) : List Nat := journal.filterMap Incident.applies?

theorem mem_appliedTo {journal : List Incident} {id : Nat} :
    id ∈ appliedTo journal ↔ ∃ ks, .applied id ks ∈ journal := by
  unfold appliedTo
  rw [List.mem_filterMap]
  constructor
  · rintro ⟨l, hl, ha⟩
    cases l with
    | applied press ks =>
      obtain rfl := Option.some.inj ha
      exact ⟨ks, hl⟩
    | _ => cases ha
  · rintro ⟨ks, hl⟩
    exact ⟨_, hl, rfl⟩

/-- The lazy keys that are armed, and the presses whose lazy keys were sent. -/
structure LazyKeys where
  armed : List Armed := []
  applied : List Nat := []

def takesAlong : Event → Bool
  | .stroke stroke => (strokeKeys stroke).any fun k => !k.isModifier
  | _ => false

namespace LazyKeys

def deliver (l : LazyKeys) : LazyKeys where
  armed := l.armed.map fun a => { a with isSent := true }
  applied := l.applied ++ (l.armed.filter fun a => !a.isSent).map (·.press)

def deliverIf (l : LazyKeys) (needed : Bool) : LazyKeys := if needed then l.deliver else l

def arm (l : LazyKeys) (id : Nat) (ks : List Key) : LazyKeys :=
  { l with armed := l.armed ++ [{ press := id, keys := ks }] }

def drop (l : LazyKeys) (id : Nat) : LazyKeys := { l with armed := l.armed.filter fun a => a.press != id }

/-- One event, for the press that holds it if there is one. -/
def event (holder : Option Nat) (l : LazyKeys) : Event → LazyKeys
  | .stroke stroke =>
    match holder with
    | none => l.deliverIf ((strokeKeys stroke).any fun k => !k.isModifier)
    | some id =>
      if stroke.isLazy then l.arm id (strokeKeys stroke)
      else l.deliverIf ((strokeKeys stroke).any fun k => !k.isModifier)
  | _ => l

theorem deliver_deliver (l : LazyKeys) : l.deliver.deliver = l.deliver := by
  have hf : (l.armed.map fun a => { a with isSent := true : Armed }).filter (fun a => !a.isSent) = [] := by
    simp [List.filter_map]
  simp only [deliver, hf, List.map_map, List.map_nil, List.append_nil]
  rfl

theorem deliverIf_deliverIf (l : LazyKeys) (a b : Bool) : (l.deliverIf a).deliverIf b = l.deliverIf (a || b) := by
  cases a <;> cases b <;> simp [deliverIf, deliver_deliver]

/-! ## The lazy keys of one press -/

/-- The press has no lazy keys, and some of it were sent at some time or not. -/
structure Clear (l : LazyKeys) (id : Nat) (sent : Prop) : Prop where
  none_armed : ∀ a ∈ l.armed, a.press ≠ id
  sent_iff : id ∈ l.applied ↔ sent

/-- The press has lazy keys that were sent or wait. -/
structure Holds (l : LazyKeys) (id : Nat) (sent : Prop) : Prop where
  waits : ¬sent → ∃ a ∈ l.armed, a.press = id ∧ a.isSent = false
  sent_iff : id ∈ l.applied ↔ sent

section
variable {l : LazyKeys} {id : Nat} {sent : Prop}

theorem Clear.deliver (h : l.Clear id sent) : l.deliver.Clear id sent where
  none_armed a ha := by
    obtain ⟨b, hb, rfl⟩ := List.mem_map.1 ha
    exact h.none_armed b hb
  sent_iff := by
    have hn : id ∉ (l.armed.filter fun a => !a.isSent).map (·.press) := by
      intro hm
      obtain ⟨a, ha, hid⟩ := List.mem_map.1 hm
      exact h.none_armed a (List.mem_filter.1 ha).1 hid
    rw [LazyKeys.deliver, List.mem_append, h.sent_iff]
    exact or_iff_left hn

theorem Clear.deliverIf (h : l.Clear id sent) (needed : Bool) : (l.deliverIf needed).Clear id sent := by
  cases needed with
  | false => exact h
  | true => exact h.deliver

theorem Clear.drop (h : l.Clear id sent) (other : Nat) : (l.drop other).Clear id sent where
  none_armed a ha := h.none_armed a (List.mem_filter.1 ha).1
  sent_iff := h.sent_iff

theorem Clear.events {holder : Option Nat} (other : holder ≠ some id) (es : List Event) (h : l.Clear id sent) :
    (es.foldl (event holder) l).Clear id sent := by
  induction es generalizing l with
  | nil => exact h
  | cons e es ih =>
    refine ih ?_
    cases e with
    | stroke stroke =>
      cases holder with
      | none => exact h.deliverIf _
      | some press =>
        unfold event
        simp only
        split
        · refine ⟨fun a ha => ?_, h.sent_iff⟩
          rcases List.mem_append.1 ha with ha | ha
          · exact h.none_armed a ha
          · rw [List.mem_singleton.1 ha]
            rintro rfl
            exact other rfl
        · exact h.deliverIf _
    | _ => exact h

theorem Clear.arm (h : l.Clear id False) (ks : List Key) : (l.arm id ks).Holds id False where
  waits _ := ⟨_, List.mem_append_right _ (List.mem_singleton.2 rfl), rfl, rfl⟩
  sent_iff := h.sent_iff

theorem Holds.deliverIf (h : l.Holds id sent) (needed : Bool) :
    (l.deliverIf needed).Holds id (sent ∨ needed = true) := by
  cases needed with
  | false => simpa [LazyKeys.deliverIf] using h
  | true =>
    refine ⟨fun hn => absurd (.inr rfl) hn, ?_⟩
    simp only [LazyKeys.deliverIf, LazyKeys.deliver, if_true, List.mem_append, or_true, iff_true]
    by_cases hs : sent
    · exact .inl (h.sent_iff.2 hs)
    · obtain ⟨a, ha, rfl, waits⟩ := h.waits hs
      exact .inr (List.mem_map_of_mem (List.mem_filter.2 ⟨ha, by simp [waits]⟩))

theorem Holds.dropOther (h : l.Holds id sent) {other : Nat} (hne : id ≠ other) : (l.drop other).Holds id sent where
  waits unsent := by
    obtain ⟨a, ha, rfl, waits⟩ := h.waits unsent
    exact ⟨a, List.mem_filter.2 ⟨ha, bne_iff_ne.2 hne⟩, rfl, waits⟩
  sent_iff := h.sent_iff

theorem Holds.drop (h : l.Holds id sent) : (l.drop id).Clear id sent where
  none_armed _ ha := bne_iff_ne.1 (List.mem_filter.1 ha).2
  sent_iff := h.sent_iff

end

end LazyKeys

namespace State

def lazyKeys (s : State) : LazyKeys := ⟨s.armed, appliedTo s.journal⟩

/-! ## Sending -/

theorem lazyKeys_note {i : Incident} (hi : i.applies? = none) (s : State) : (s.note i).lazyKeys = s.lazyKeys := by
  simp [lazyKeys, note, appliedTo, List.filterMap_append, hi]

theorem lazyKeys_noteAll {is : List Incident} (hi : ∀ i ∈ is, i.applies? = none) (s : State) :
    (s.noteAll is).lazyKeys = s.lazyKeys := by
  have hn : is.filterMap Incident.applies? = [] := List.filterMap_eq_nil_iff.2 hi
  simp [lazyKeys, noteAll, appliedTo, List.filterMap_append, hn]

theorem lazyKeys_send (s : State) (o : Output) : (s.send o).lazyKeys = s.lazyKeys :=
  lazyKeys_note (i := .sent o) rfl { s with output := s.output ++ [o] }

theorem lazyKeys_sendAll (s : State) (os : List Output) : (s.sendAll os).lazyKeys = s.lazyKeys := by
  unfold sendAll
  induction os generalizing s with
  | nil => rfl
  | cons o os ih => exact (ih (s.send o)).trans (lazyKeys_send s o)

theorem lazyKeys_sendUps (s : State) (ks : List Key) : (s.sendUps ks).lazyKeys = s.lazyKeys :=
  lazyKeys_sendAll s _

theorem lazyKeys_sendWaiting (s : State) (a : Armed) :
    (s.sendWaiting a).lazyKeys = ⟨s.lazyKeys.armed, s.lazyKeys.applied ++ [a.press]⟩ := by
  rw [sendWaiting, lazyKeys_sendAll]
  simp [lazyKeys, note, appliedTo, List.filterMap_append, Incident.applies?]

theorem lazyKeys_sendWaitings (l : List Armed) (s : State) :
    (l.foldl sendWaiting s).lazyKeys = ⟨s.lazyKeys.armed, s.lazyKeys.applied ++ l.map (·.press)⟩ := by
  induction l generalizing s with
  | nil => simp
  | cons a l ih =>
    rw [List.foldl_cons, ih, lazyKeys_sendWaiting]
    simp

theorem lazyKeys_sendArmed (s : State) : s.sendArmed.lazyKeys = s.lazyKeys.deliver := by
  rw [sendArmed, lazyKeys_sendWaitings]
  rfl

theorem lazyKeys_sendDown (s : State) (k : Key) : (s.sendDown k).lazyKeys = s.lazyKeys.deliverIf (!k.isModifier) := by
  rw [sendDown, lazyKeys_send]
  cases k.isModifier with
  | true => rfl
  | false => exact lazyKeys_sendArmed s

theorem lazyKeys_sendDowns (s : State) (ks : List Key) :
    (s.sendDowns ks).lazyKeys = s.lazyKeys.deliverIf (ks.any fun k => !k.isModifier) := by
  unfold sendDowns
  induction ks generalizing s with
  | nil => rfl
  | cons k ks ih => rw [List.foldl_cons, ih, lazyKeys_sendDown, LazyKeys.deliverIf_deliverIf, List.any_cons]

theorem lazyKeys_holdDown (s : State) (id : Nat) (ks : List Key) :
    (s.holdDown id ks).lazyKeys = s.lazyKeys.deliverIf (ks.any fun k => !k.isModifier) :=
  lazyKeys_sendDowns s ks

theorem lazyKeys_arm (s : State) (id : Nat) (ks : List Key) : (s.arm id ks).lazyKeys = s.lazyKeys.arm id ks := by
  have h : (s.note (.armed id ks)).lazyKeys = s.lazyKeys := lazyKeys_note rfl s
  exact congrArg (LazyKeys.arm · id ks) h

theorem lazyKeys_setFlag (s : State) (f : Flag) (value : Bool) : (s.setFlag f value).lazyKeys = s.lazyKeys := by
  unfold setFlag
  split <;> rfl

theorem lazyKeys_sendEvent (holder : Option Nat) (s : State) (e : Event) :
    (sendEvent holder s e).lazyKeys = s.lazyKeys.event holder e := by
  cases e with
  | setFlag f value => exact lazyKeys_setFlag s f value
  | paste text => exact lazyKeys_send s _
  | stroke stroke =>
    cases holder with
    | none => exact (lazyKeys_sendUps _ _).trans (lazyKeys_sendDowns s _)
    | some id =>
      simp only [sendEvent, LazyKeys.event]
      split
      · exact lazyKeys_arm s id _
      · exact lazyKeys_holdDown s id _

theorem lazyKeys_sendEvents (holder : Option Nat) (s : State) (es : List Event) :
    (s.sendEvents holder es).lazyKeys = es.foldl (LazyKeys.event holder) s.lazyKeys := by
  unfold sendEvents
  induction es generalizing s with
  | nil => rfl
  | cons e es ih => rw [List.foldl_cons, ih, lazyKeys_sendEvent, List.foldl_cons]

theorem lazyKeys_emit (s : State) (press rule : Nat) (stage : Stage) (holder : Option Nat) (es : List Event) :
    (s.emit press rule stage holder es).lazyKeys = es.foldl (LazyKeys.event holder) s.lazyKeys := by
  rw [emit, lazyKeys_sendEvents, lazyKeys_note rfl]


theorem lazyKeys_emit_none (s : State) (press rule : Nat) (stage : Stage) (es : List Event) :
    (s.emit press rule stage none es).lazyKeys = s.lazyKeys.deliverIf (es.any takesAlong) := by
  have one : ∀ (l : LazyKeys) (e : Event), l.event none e = l.deliverIf (takesAlong e) := by
    intro l e
    cases e <;> rfl
  rw [lazyKeys_emit]
  induction es generalizing s with
  | nil => rfl
  | cons e es ih =>
    have h := ih (sendEvent none s e)
    rw [lazyKeys_sendEvent, one] at h
    rw [List.foldl_cons, one, h, LazyKeys.deliverIf_deliverIf, List.any_cons]

theorem lazyKeys_disarm (s : State) (a : Armed) : (s.disarm a).lazyKeys = s.lazyKeys := by
  have h : (s.note (.disarmed a.press a.keys a.isSent)).lazyKeys = s.lazyKeys := lazyKeys_note rfl s
  unfold disarm
  simp only
  split
  · exact (lazyKeys_sendUps _ _).trans h
  · exact h

theorem lazyKeys_disarms (l : List Armed) (s : State) : (l.foldl disarm s).lazyKeys = s.lazyKeys := by
  induction l generalizing s with
  | nil => rfl
  | cons a l ih => exact (ih (s.disarm a)).trans (lazyKeys_disarm s a)

/-- The lazy keys of a press go with it. -/
theorem lazyKeys_releaseOutputs (s : State) (p : Press) : (s.releaseOutputs p).lazyKeys = s.lazyKeys.drop p.id := by
  have h : ((s.sendUps p.outputs).updatePress p.id fun p => { p with outputs := [] }).lazyKeys = s.lazyKeys :=
    lazyKeys_sendUps s _
  rw [releaseOutputs, lazyKeys_disarms]
  exact congrArg (LazyKeys.drop · p.id) h

end State

/-! ## Operations -/

section
variable (rules : List Manipulator)

theorem lazyKeys_fireCountdown (s : State) (d : Deadline) (p : Pending) :
    (fire rules s d (.countdown p)).lazyKeys =
      s.lazyKeys.deliverIf ((eventsOf rules p.rule onInvoked).any takesAlong) := by
  have h : (((s.note (.fired d)).forgetPending p.press).note (.invoked p.rule d.instant)).lazyKeys = s.lazyKeys :=
    (State.lazyKeys_note rfl _).trans (State.lazyKeys_note (i := .fired d) rfl s)
  rw [fire, fireCountdown, State.lazyKeys_emit_none, h]

variable {rules}
variable {id : Nat} {sent : Prop}

theorem LazyKeys.Clear.fireHold {s : State} (h : s.lazyKeys.Clear id sent) (d : Deadline) {p : Press}
    (other : p.id ≠ id) : (fire rules s d (.hold p)).lazyKeys.Clear id sent := by
  have hn : (s.note (.fired d)).lazyKeys = s.lazyKeys := State.lazyKeys_note rfl s
  have hne : some p.id ≠ some id := fun he => other (Option.some.inj he)
  rw [← hn] at h
  unfold fire Engine.fireHold
  simp only
  split
  · exact h
  · rename_i i _
    have he := h.events hne (eventsOf rules i (·.onHold))
    split
    · exact (State.lazyKeys_emit _ _ _ _ _ _).symm ▸ he
    · exact (State.lazyKeys_emit _ _ _ _ _ _).symm ▸ he

/-- What other presses leave to do when a press begins concerns no lazy keys but those that wait. -/
theorem LazyKeys.Clear.disturbed {s : State} (h : s.lazyKeys.Clear id sent) (keys : List Key)
    (rule : Option Nat) (instant : Nat) : (disturbed rules keys rule instant s).lazyKeys.Clear id sent := by
  have ends : ∀ (ps : List Pending) (t : State), t.lazyKeys.Clear id sent →
      (ps.foldl (endCountdown rules keys) t).lazyKeys.Clear id sent := by
    intro ps
    induction ps with
    | nil => exact fun _ ht => ht
    | cons p ps ih =>
      intro t ht
      refine ih _ ?_
      unfold endCountdown
      split
      · rw [State.lazyKeys_note (i := .dropped p.press p.rule) rfl]
        exact ht
      · rw [State.lazyKeys_emit]
        exact ht.events (by simp) _
  refine ends _ _ ?_
  have hn : (s.note (.dispatched (s.serial + 1) keys rule instant s.flags)).lazyKeys = s.lazyKeys :=
    State.lazyKeys_note rfl s
  rw [← hn] at h
  exact h

/-- A press that begins arms lazy keys of its own only. -/
theorem LazyKeys.Clear.dispatch {s : State} (h : s.lazyKeys.Clear id sent) (other : s.serial + 1 ≠ id)
    (keys : List Key) (rule : Option Nat) (instant : Nat) :
    (dispatch rules keys rule instant s).lazyKeys.Clear id sent := by
  have hd : (Engine.disturbed rules keys rule instant s).lazyKeys.Clear id sent := h.disturbed keys rule instant
  obtain ⟨i, m, rfl, hm⟩ | hr := rule_cases rules rule
  · have hs : (Engine.disturbed rules keys (some i) instant s).serial = s.serial + 1 := rfl
    rw [dispatch_rule rules keys hm, beginRule_eq hs, State.lazyKeys_emit]
    refine LazyKeys.Clear.events (fun he => other (Option.some.inj he)) m.onPress ?_
    exact hd
  · rw [dispatch_plain rules keys hr, beginPlain, State.lazyKeys_holdDown]
    exact LazyKeys.Clear.deliverIf hd _

/-- The rule sends one lazy stroke when a press begins, and writes flags. -/
def startsLazily (m : Manipulator) : Prop :=
  ∃ stroke rest, m.onPress = .stroke stroke :: rest ∧ stroke.isLazy = true ∧
    ∀ e ∈ rest, ∃ flag value, e = .setFlag flag value

theorem LazyKeys.events_flags {holder : Option Nat} {es : List Event}
    (flags : ∀ e ∈ es, ∃ flag value, e = .setFlag flag value) (l : LazyKeys) : es.foldl (event holder) l = l := by
  induction es with
  | nil => rfl
  | cons e es ih =>
    obtain ⟨flag, value, rfl⟩ := flags e List.mem_cons_self
    exact ih fun c hc => flags c (List.mem_cons_of_mem _ hc)

theorem LazyKeys.Clear.begin {s : State} (h : s.lazyKeys.Clear (s.serial + 1) False) (keys : List Key) {i : Nat}
    {m : Manipulator} (hm : rules[i]? = some m) (starts : startsLazily m) (instant : Nat) :
    (Engine.dispatch rules keys (some i) instant s).lazyKeys.Holds (s.serial + 1) False := by
  obtain ⟨stroke, rest, onPress, isLazy, flags⟩ := starts
  have hd : (Engine.disturbed rules keys (some i) instant s).lazyKeys.Clear (s.serial + 1) False :=
    h.disturbed keys (some i) instant
  have hs : (Engine.disturbed rules keys (some i) instant s).serial = s.serial + 1 := rfl
  rw [dispatch_rule rules keys hm, beginRule_eq hs, State.lazyKeys_emit, onPress, List.foldl_cons,
    LazyKeys.events_flags flags]
  simp only [LazyKeys.event, isLazy, if_true]
  exact hd.arm _

/-- The events at the end of a press of a rule have a key that is no modifier. -/
def endTakesAlong (p : Press) (m : Manipulator) (instant : Nat) : Bool :=
  (isTap m p instant && m.onTap.any takesAlong)
    || (!(isTap m p instant && halts m.onTap) && m.onRelease.any takesAlong)

theorem lazyKeys_endRule (p : Press) (i : Nat) (m : Manipulator) (instant : Nat) (s : State) :
    (endRule p i m instant s).lazyKeys = s.lazyKeys.deliverIf (endTakesAlong p m instant) := by
  have hc : ∀ t : State, (startCountdown p.id m instant t).lazyKeys = t.lazyKeys := by
    intro t
    unfold startCountdown
    split <;> rfl
  have tap : ∀ t : State, (t.emit p.id i .tap none m.onTap).lazyKeys = t.lazyKeys.deliverIf (m.onTap.any takesAlong) :=
    fun t => State.lazyKeys_emit_none t _ _ _ _
  unfold endRule endTakesAlong
  cases isTap m p instant with
  | false => simp [hc, State.lazyKeys_emit_none]
  | true =>
    cases halts m.onTap with
    | true =>
      refine (tap s).trans ?_
      simp
    | false => simp [hc, State.lazyKeys_emit_none, LazyKeys.deliverIf_deliverIf]

variable (rules) in
theorem lazyKeys_endPress (s : State) (p : Press) (instant : Nat) :
    (endPress rules p instant s).lazyKeys =
      s.lazyKeys.deliverIf (p.rule.any fun i => rules[i]?.any fun m => endTakesAlong p m instant) := by
  have hn : ((s.drop p.id).note (.released p.id)).lazyKeys = s.lazyKeys :=
    State.lazyKeys_note (i := .released p.id) rfl (s.drop p.id)
  cases hr : p.rule with
  | none =>
    simp only [endPress, hr]
    exact hn
  | some i =>
    cases hm : rules[i]? with
    | none =>
      simp only [endPress, hr, hm, Option.any_some]
      exact hn
    | some m =>
      simp only [endPress, hr, hm, lazyKeys_endRule, Option.any_some]
      exact congrArg (LazyKeys.deliverIf · _) hn

theorem lazyKeys_release {s : State} {k : Key} {p : Press} (hk : s.holder? k = some p) (instant : Nat) :
    (release rules k instant s).lazyKeys = (s.lazyKeys.drop p.id).deliverIf
      ((p.held.filter (· != k)).isEmpty &&
        p.rule.any fun i => rules[i]?.any fun m => endTakesAlong p m instant) := by
  have hr : ((s.updatePress p.id fun q => { q with held := p.held.filter (· != k) }).releaseOutputs p).lazyKeys =
      s.lazyKeys.drop p.id := State.lazyKeys_releaseOutputs _ p
  simp only [release, hk]
  cases (p.held.filter (· != k)).isEmpty with
  | false => exact hr
  | true =>
    rw [if_pos rfl, lazyKeys_endPress, hr]
    rfl

/-- A press that was disturbed ends without a stroke, if its rule only writes flags then. -/
theorem endTakesAlong_disturbed {p : Press} (disturbed : p.isAlone = false) {m : Manipulator} {instant : Nat}
    (flags : ∀ e ∈ m.onRelease, ∃ flag value, e = .setFlag flag value) : endTakesAlong p m instant = false := by
  have tap : isTap m p instant = false := by simp [isTap, disturbed]
  have release : m.onRelease.any takesAlong = false := by
    refine List.any_eq_false.2 fun e he => ?_
    obtain ⟨flag, value, rfl⟩ := flags e he
    exact Bool.false_ne_true
  simp [endTakesAlong, tap, release]

/-- So such a press only takes its lazy keys away. -/
theorem lazyKeys_release_disturbed {s : State} {k : Key} {p : Press} (hk : s.holder? k = some p)
    (disturbed : p.isAlone = false) (flags : ∀ m ∈ rules, ∀ e ∈ m.onRelease, ∃ flag value, e = .setFlag flag value)
    (instant : Nat) : (release rules k instant s).lazyKeys = s.lazyKeys.drop p.id := by
  have quiet : (p.rule.any fun i => rules[i]?.any fun m => endTakesAlong p m instant) = false := by
    cases p.rule with
    | none => rfl
    | some i =>
      cases hm : rules[i]? with
      | none => simp [hm]
      | some m => simpa [hm] using endTakesAlong_disturbed disturbed (flags m (List.mem_of_getElem? hm))
  rw [lazyKeys_release hk, quiet, Bool.and_false]
  rfl

end

end KeyRules.Engine
