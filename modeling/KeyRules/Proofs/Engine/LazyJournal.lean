import KeyRules.Proofs.Engine.Balance
import KeyRules.Proofs.Engine.LazyFate

/-!
# The journal of lazy keys

Each operation of the engine tells in the journal, step by step, what it does to lazy keys and to the output (`Tells`).
Presses begin and hold timers fire with what they arm, keys that go up take the lazy keys of their press along, and
nothing else makes lazy keys wait or go.
-/

namespace KeyRules.Engine

/-! ## Rules -/

def armsKeys : Event → Bool
  | .stroke stroke => stroke.isLazy
  | _ => false

/-- Only modifiers are lazy. -/
def LazyModifiers (es : List Event) : Prop :=
  ∀ stroke, .stroke stroke ∈ es → stroke.isLazy = true → ∀ k ∈ strokeKeys stroke, k.isModifier = true

/-- Lazy keys are modifiers, and a press arms them once: at its beginning or with its hold timer. -/
structure ArmsOnce (m : Manipulator) : Prop where
  modifiers : LazyModifiers m.events
  press : m.onPress.countP armsKeys ≤ 1
  hold : m.onHold.countP armsKeys ≤ 1
  timed : m.holdThreshold.isSome = true → m.onPress.countP armsKeys = 0

/-! ## Lines of lazy keys -/

/-- Lazy keys of a press start to wait (`true`) or go (`false`). -/
def Incident.turn? : Incident → Option (Nat × Bool)
  | armed press _ => some (press, true)
  | disarmed press _ _ => some (press, false)
  | _ => none

/-- The presses that arm lazy keys. -/
def arming (turns : List (Nat × Bool)) : List Nat := (turns.filter (·.2)).map (·.1)

theorem armings_turns (lines : List Incident) : armings lines = arming (lines.filterMap Incident.turn?) := by
  induction lines with
  | nil => rfl
  | cons l lines ih =>
    unfold armings arming at ih ⊢
    rw [List.filterMap_cons, List.filterMap_cons]
    cases l with
    | armed press keys => exact congrArg (press :: ·) ih
    | _ => exact ih

/-- Lazy keys that wait are sent. -/
def Armed.applyLines (a : Armed) : List Incident := .applied a.press a.keys :: downLines a.keys

/-- Lazy keys go, and up if they are down. -/
def Armed.farewell (a : Armed) : List Incident :=
  .disarmed a.press a.keys a.isSent :: if a.isSent then upLines a.keys else []

theorem LazySteps.applyAll (as front : List Armed) :
    LazySteps (front ++ as) ((as.filter fun a => !a.isSent).flatMap Armed.applyLines)
      (front ++ as.map fun a => { a with isSent := true }) := by
  induction as generalizing front with
  | nil => exact .refl _
  | cons a as ih =>
    have rest := ih (front ++ [{ a with isSent := true }])
    rw [List.append_assoc, List.append_assoc] at rest
    cases sent : a.isSent with
    | true =>
      have same : { a with isSent := true } = a := by rw [← sent]
      rw [same] at rest
      rw [List.filter_cons_of_neg (by simp [sent]), List.map_cons, same]
      exact rest
    | false =>
      rw [List.filter_cons_of_pos (by simp [sent]), List.flatMap_cons, List.map_cons]
      exact (LazySteps.single (.apply front as sent)).trans rest

/-- Those of a press go, the last one first. -/
theorem LazySteps.disarmAll (id : Nat) (as front : List Armed) :
    LazySteps (front ++ as) ((as.filter (·.press == id)).reverse.flatMap Armed.farewell)
      (front ++ as.filter (·.press != id)) := by
  induction as generalizing front with
  | nil => exact .refl _
  | cons a as ih =>
    have rest := ih (front ++ [a])
    rw [List.append_assoc, List.append_assoc] at rest
    by_cases own : a.press = id
    · rw [List.filter_cons_of_pos (by simpa using own), List.filter_cons_of_neg (by simpa using own),
        List.reverse_cons, List.flatMap_append, List.flatMap_singleton]
      exact rest.trans (.single (.disarm front _ a))
    · rw [List.filter_cons_of_neg (by simpa using own), List.filter_cons_of_pos (by simpa using own)]
      exact rest

/-- Where none goes, those that were armed stay in front, followed by those that start to wait. -/
theorem LazySteps.stay {as bs : List Armed} {lines : List Incident} (h : LazySteps as lines bs)
    (none_goes : ∀ turn ∈ lines.filterMap Incident.turn?, turn.2 = true) :
    ∃ more, bs.map Armed.name = as.map Armed.name ++ more ∧
      more.map (·.1) = arming (lines.filterMap Incident.turn?) := by
  induction h with
  | refl => exact ⟨[], (List.append_nil _).symm, rfl⟩
  | tail steps step ih =>
    rw [List.filterMap_append] at none_goes
    obtain ⟨more, names, ids⟩ := ih fun turn ht => none_goes turn (List.mem_append_left _ ht)
    rw [← armings_turns] at ids ⊢
    rw [armings_append, ← ids]
    cases step with
    | aside plain allowed =>
      rename_i l
      refine ⟨more, names, ?_⟩
      cases l <;> first | exact (List.append_nil _).symm | cases plain
    | arm id modifiers =>
      rename_i ks
      refine ⟨more ++ [(id, ks)], ?_, List.map_append⟩
      rw [List.map_append, names, List.append_assoc]
      rfl
    | apply front back waits =>
      rename_i a
      refine ⟨more, ?_, ?_⟩
      · rw [← names, List.map_append, List.map_append]
        rfl
      · have quiet : armings (.applied a.press a.keys :: downLines a.keys) = [] := armings_downLines a.keys
        rw [quiet, List.append_nil]
    | disarm front back a => cases none_goes (a.press, false) (List.mem_append_right _ List.mem_cons_self)

/-! ## Sending -/

/-- From one state to a later one the journal tells what became of lazy keys and what was output. The turns are the
lazy keys that start to wait and those that go. -/
def Tells (turns : List (Nat × Bool)) (s t : State) : Prop :=
  ∃ lines, t.journal = s.journal ++ lines ∧ t.output = s.output ++ lines.filterMap Incident.output? ∧
    LazySteps s.armed lines t.armed ∧ lines.filterMap Incident.turn? = turns

section
variable {s t u : State} {turns more : List (Nat × Bool)}

theorem Tells.refl (s : State) : Tells [] s s := ⟨[], by simp, by simp, .refl _, rfl⟩

theorem Tells.trans (h : Tells turns s t) (h' : Tells more t u) : Tells (turns ++ more) s u := by
  obtain ⟨lines, hj, ho, hs, rfl⟩ := h
  obtain ⟨lines', hj', ho', hs', rfl⟩ := h'
  refine ⟨lines ++ lines', ?_, ?_, hs.trans hs', List.filterMap_append⟩
  · rw [hj', hj, List.append_assoc]
  · rw [ho', ho, List.append_assoc, List.filterMap_append]

theorem Tells.after (h : Tells [] s t) (h' : Tells turns t u) : Tells turns s u := h.trans h'

theorem Tells.before (h : Tells turns s t) (h' : Tells [] t u) : Tells turns s u :=
  List.append_nil turns ▸ h.trans h'

theorem Tells.change (h : Tells turns s t) (armed : u.armed = t.armed) (output : u.output = t.output)
    (journal : u.journal = t.journal) : Tells turns s u := by
  obtain ⟨lines, hj, ho, hs, ht⟩ := h
  exact ⟨lines, journal.trans hj, output.trans ho, armed ▸ hs, ht⟩

theorem Tells.foldl {α : Type} {f : State → α → State} {g : α → List (Nat × Bool)} {l : List α}
    (hf : ∀ a ∈ l, ∀ s, Tells (g a) s (f s a)) (s : State) : Tells (l.flatMap g) s (l.foldl f s) := by
  induction l generalizing s with
  | nil => exact .refl s
  | cons a l ih =>
    rw [List.flatMap_cons, List.foldl_cons]
    exact (hf a List.mem_cons_self s).trans (ih (fun b hb => hf b (List.mem_cons_of_mem _ hb)) _)

theorem Tells.foldl_quiet {α : Type} {f : State → α → State} {l : List α} (hf : ∀ a ∈ l, ∀ s, Tells [] s (f s a))
    (s : State) : Tells [] s (l.foldl f s) := by
  have quiet : l.flatMap (fun _ => ([] : List (Nat × Bool))) = [] := by simp
  exact quiet ▸ Tells.foldl (g := fun _ => []) hf s

theorem tells_note {l : Incident} (plain : l.lazyPress? = none) (silent : l.output? = none) (s : State) :
    Tells [] s (s.note l) := by
  have allowed : l.sendsPlain = false := by
    cases l <;> first | rfl | cases silent
  refine ⟨[l], rfl, ?_, .single (.aside plain fun h => ?_), ?_⟩
  · rw [List.filterMap_cons_none silent]
    exact (List.append_nil _).symm
  · rw [allowed] at h
    cases h
  · cases l <;> first | rfl | cases plain

theorem tells_send {o : Output} (s : State)
    (allowed : (Incident.sent o).sendsPlain = true → ∀ a ∈ s.armed, a.isSent = true) :
    Tells [] s (s.send o) :=
  ⟨[.sent o], rfl, rfl, .single (.aside rfl allowed), rfl⟩

theorem tells_sendUps (s : State) (ks : List Key) : Tells [] s (s.sendUps ks) :=
  Tells.foldl_quiet (fun o ho s => by
    obtain ⟨k, -, rfl⟩ := List.mem_map.1 ho
    exact tells_send s fun h => nomatch h) s

theorem sendAll_journal (s : State) (os : List Output) :
    (s.sendAll os).journal = s.journal ++ os.map Incident.sent := by
  unfold State.sendAll
  induction os generalizing s with
  | nil => simp
  | cons o os ih => simp [ih, State.send, State.note]

theorem sendWaitings_journal (l : List Armed) (s : State) :
    (l.foldl State.sendWaiting s).journal = s.journal ++ l.flatMap Armed.applyLines := by
  induction l generalizing s with
  | nil => simp
  | cons a l ih =>
    rw [List.foldl_cons, ih, State.sendWaiting, sendAll_journal]
    simp [State.note, Armed.applyLines, downLines, Function.comp_def]

theorem output_applyLines (a : Armed) : a.applyLines.filterMap Incident.output? = a.keys.map .down := by
  rw [Armed.applyLines, List.filterMap_cons_none rfl, downLines, List.filterMap_map]
  exact congrFun List.filterMap_eq_map a.keys

theorem tells_sendArmed (s : State) : Tells [] s s.sendArmed := by
  refine ⟨(s.armed.filter fun a => !a.isSent).flatMap Armed.applyLines, ?_, ?_, ?_, ?_⟩
  · unfold State.sendArmed
    exact sendWaitings_journal _ _
  · rw [State.sendArmed_output, State.armedKeys, List.filterMap_flatMap, List.map_flatMap]
    simp only [output_applyLines]
  · rw [State.sendArmed_armed]
    exact LazySteps.applyAll s.armed []
  · refine List.filterMap_eq_nil_iff.2 fun l hl => ?_
    obtain ⟨a, -, hl⟩ := List.mem_flatMap.1 hl
    rcases List.mem_cons.1 hl with rfl | hl
    · rfl
    · obtain ⟨k, -, rfl⟩ := List.mem_map.1 hl
      rfl

theorem tells_sendDown (s : State) (k : Key) : Tells [] s (s.sendDown k) := by
  unfold State.sendDown
  cases modifier : k.isModifier with
  | true => exact tells_send s fun h => by simp [Incident.sendsPlain, modifier] at h
  | false =>
    refine (tells_sendArmed s).after (tells_send _ fun _ a ha => ?_)
    rw [State.sendArmed_armed] at ha
    obtain ⟨b, -, rfl⟩ := List.mem_map.1 ha
    rfl

theorem tells_sendDowns (s : State) (ks : List Key) : Tells [] s (s.sendDowns ks) :=
  Tells.foldl_quiet (fun k _ s => tells_sendDown s k) s

theorem tells_holdDown (s : State) (id : Nat) (ks : List Key) : Tells [] s (s.holdDown id ks) :=
  (tells_sendDowns s ks).change rfl rfl rfl

theorem tells_setFlag (s : State) (f : Flag) (value : Bool) : Tells [] s (s.setFlag f value) := by
  unfold State.setFlag
  split <;> exact (Tells.refl s).change rfl rfl rfl

theorem tells_arm (s : State) (id : Nat) {ks : List Key} (modifiers : ∀ k ∈ ks, k.isModifier = true) :
    Tells [(id, true)] s (s.arm id ks) :=
  ⟨[.armed id ks], rfl, (List.append_nil _).symm, .single (.arm id modifiers), rfl⟩

def armedBy (id : Nat) (e : Event) : List (Nat × Bool) := if armsKeys e then [(id, true)] else []

theorem armedBy_replicate (id : Nat) (es : List Event) :
    es.flatMap (armedBy id) = List.replicate (es.countP armsKeys) (id, true) := by
  induction es with
  | nil => rfl
  | cons e es ih =>
    rw [List.flatMap_cons, ih, List.countP_cons]
    cases h : armsKeys e <;> simp [armedBy, h, List.replicate_succ]

theorem tells_sendEvents (s : State) (id : Nat) {es : List Event} (modifiers : LazyModifiers es) :
    Tells (List.replicate (es.countP armsKeys) (id, true)) s (s.sendEvents (some id) es) := by
  rw [← armedBy_replicate]
  refine Tells.foldl (fun e he s => ?_) s
  cases e with
  | setFlag f value => exact tells_setFlag s f value
  | paste text => exact tells_send s fun h => nomatch h
  | stroke stroke =>
    unfold armedBy
    by_cases lazy : stroke.isLazy = true
    · have arms : s.sendEvent (some id) (.stroke stroke) = s.arm id (strokeKeys stroke) := if_pos lazy
      rw [if_pos (show armsKeys (.stroke stroke) = true from lazy), arms]
      exact tells_arm s id (modifiers stroke he lazy)
    · have holds : s.sendEvent (some id) (.stroke stroke) = s.holdDown id (strokeKeys stroke) := if_neg lazy
      rw [if_neg (show ¬armsKeys (.stroke stroke) = true from lazy), holds]
      exact tells_holdDown s id _

theorem tells_sendEvents_none (s : State) (es : List Event) : Tells [] s (s.sendEvents none es) := by
  refine Tells.foldl_quiet (fun e _ s => ?_) s
  cases e with
  | setFlag f value => exact tells_setFlag s f value
  | paste text => exact tells_send s fun h => nomatch h
  | stroke stroke => exact (tells_sendDowns s _).after (tells_sendUps _ _)

theorem tells_emit (s : State) (id rule : Nat) (stage : Stage) {es : List Event} (modifiers : LazyModifiers es) :
    Tells (List.replicate (es.countP armsKeys) (id, true)) s (s.emit id rule stage (some id) es) :=
  (tells_note rfl rfl s).after (tells_sendEvents _ id modifiers)

theorem tells_emit_none (s : State) (press rule : Nat) (stage : Stage) (es : List Event) :
    Tells [] s (s.emit press rule stage none es) :=
  (tells_note rfl rfl s).after (tells_sendEvents_none _ es)

/-! ## Releasing -/

theorem disarm_told (s : State) (a : Armed) :
    (s.disarm a).journal = s.journal ++ a.farewell ∧
      (s.disarm a).output = s.output ++ a.farewell.filterMap Incident.output? := by
  unfold State.disarm Armed.farewell
  rw [List.filterMap_cons_none rfl]
  cases a.isSent with
  | true =>
    refine ⟨?_, ?_⟩
    · simp [State.sendUps, sendAll_journal, State.note, upLines, Function.comp_def]
    · rw [if_pos rfl, if_pos rfl, State.sendUps, State.sendAll_output, upLines, List.filterMap_map]
      exact congrArg (s.output ++ ·) (congrFun List.filterMap_eq_map a.keys.reverse).symm
  | false => exact ⟨rfl, (List.append_nil _).symm⟩

theorem disarmAll_told (l : List Armed) (s : State) :
    (l.foldl State.disarm s).journal = s.journal ++ l.flatMap Armed.farewell ∧
      (l.foldl State.disarm s).output = s.output ++ (l.flatMap Armed.farewell).filterMap Incident.output? := by
  induction l generalizing s with
  | nil => simp
  | cons a l ih =>
    obtain ⟨hj, ho⟩ := ih (s.disarm a)
    obtain ⟨ja, oa⟩ := disarm_told s a
    rw [List.foldl_cons, List.flatMap_cons, List.filterMap_append, ← List.append_assoc, ← List.append_assoc]
    exact ⟨ja ▸ hj, oa ▸ ho⟩

def State.leaving (s : State) (id : Nat) : List Armed := (s.armed.filter (·.press == id)).reverse

theorem turns_farewell (l : List Armed) :
    (l.flatMap Armed.farewell).filterMap Incident.turn? = l.map fun a => (a.press, false) := by
  induction l with
  | nil => rfl
  | cons a l ih =>
    have one : a.farewell.filterMap Incident.turn? = [(a.press, false)] := by
      unfold Armed.farewell
      refine congrArg ((a.press, false) :: ·) (List.filterMap_eq_nil_iff.2 fun l hl => ?_)
      split at hl
      · obtain ⟨k, -, rfl⟩ := List.mem_map.1 hl
        rfl
      · cases hl
    rw [List.flatMap_cons, List.filterMap_append, one, ih]
    rfl

theorem releaseOutputs_journal (s : State) (p : Press) :
    (s.releaseOutputs p).journal = s.journal ++ upLines p.outputs ++ (s.leaving p.id).flatMap Armed.farewell := by
  have ups : (s.sendUps p.outputs).journal = s.journal ++ upLines p.outputs := by
    rw [State.sendUps, sendAll_journal, List.map_map]
    rfl
  have armed : (s.sendUps p.outputs).armed = s.armed := State.sendAll_armed s _
  rw [← ups]
  unfold State.leaving
  rw [← armed]
  exact (disarmAll_told _ _).1

theorem releaseOutputs_armed (s : State) (p : Press) :
    (s.releaseOutputs p).armed = s.armed.filter (·.press != p.id) := by
  have armed : (s.sendUps p.outputs).armed = s.armed := State.sendAll_armed s _
  rw [← armed]
  exact (disarm_foldl _ _).2

/-- A press lets go of what it holds, its lazy keys last. -/
theorem tells_releaseOutputs (s : State) (p : Press) :
    Tells ((s.leaving p.id).map fun a => (a.press, false)) s (s.releaseOutputs p) := by
  have armed : (s.sendUps p.outputs).armed = s.armed := State.sendAll_armed s _
  have ups := tells_sendUps s p.outputs
  refine ups.after ⟨(s.leaving p.id).flatMap Armed.farewell, ?_, ?_, ?_, turns_farewell _⟩
  · rw [State.leaving, ← armed]
    exact (disarmAll_told _ _).1
  · rw [State.leaving, ← armed]
    exact (disarmAll_told _ _).2
  · rw [releaseOutputs_armed, armed]
    exact LazySteps.disarmAll p.id s.armed []

end

/-! ## Operations -/

section
variable {rules : List Manipulator}

theorem ArmsOnce.lazy {m : Manipulator} (h : ArmsOnce m) {es : List Event} (sub : es ⊆ m.events) : LazyModifiers es :=
  fun stroke hs => h.modifiers stroke (sub hs)

def holdEvents (rules : List Manipulator) (p : Press) : List Event :=
  (p.rule.map fun i => eventsOf rules i (·.onHold)).getD []

theorem holdEvents_lazy (once : ∀ m ∈ rules, ArmsOnce m) (p : Press) :
    LazyModifiers (holdEvents rules p) ∧ (holdEvents rules p).countP armsKeys ≤ 1 := by
  have none_armed : LazyModifiers [] ∧ ([] : List Event).countP armsKeys ≤ 1 :=
    ⟨fun _ hs => (List.not_mem_nil hs).elim, Nat.zero_le _⟩
  unfold holdEvents
  obtain ⟨i, m, hr, hm⟩ | hr := rule_cases rules p.rule
  · have h := once m (List.mem_of_getElem? hm)
    have he : ((p.rule.map fun i => eventsOf rules i (·.onHold)).getD []) = m.onHold := by simp [hr, eventsOf, hm]
    rw [he]
    exact ⟨h.lazy fun e he => by simp [Manipulator.events, he], h.hold⟩
  · cases hp : p.rule with
    | none => exact none_armed
    | some i => simpa [eventsOf, hr i hp] using none_armed

theorem tells_fireCountdown (s : State) (d : Deadline) (p : Pending) :
    Tells [] s (fire rules s d (.countdown p)) := by
  have noted : Tells [] s ((s.note (.fired d)).forgetPending p.press) :=
    (tells_note rfl rfl s).change rfl rfl rfl
  exact (noted.after (tells_note rfl rfl _)).after (tells_emit_none _ _ _ _ _)

theorem tells_fireHold (once : ∀ m ∈ rules, ArmsOnce m) (s : State) (d : Deadline) (p : Press) :
    Tells (List.replicate ((holdEvents rules p).countP armsKeys) (p.id, true)) s (fire rules s d (.hold p)) := by
  have lazy := (holdEvents_lazy once p).1
  have marked : Tells [] s ((s.note (.fired d)).updatePress p.id Press.fired) :=
    (tells_note rfl rfl s).change rfl rfl rfl
  unfold holdEvents at lazy ⊢
  cases hp : p.rule with
  | none =>
    simp only [fire, fireHold, hp]
    exact marked
  | some i =>
    rw [hp] at lazy
    simp only [fire, fireHold, hp]
    have sent := marked.after (tells_emit _ p.id i .hold lazy)
    split
    · exact sent.change rfl rfl rfl
    · exact sent

variable (rules) in
theorem tells_endCountdown (keys : List Key) (s : State) (p : Pending) : Tells [] s (endCountdown rules keys s p) := by
  unfold endCountdown
  split
  · exact tells_note rfl rfl s
  · exact tells_emit_none _ _ _ _ _

variable (rules) in
theorem tells_disturbed (keys : List Key) (rule : Option Nat) (instant : Nat) (s : State) :
    Tells [] s (disturbed rules keys rule instant s) := by
  have noted : Tells [] s (s.note (.dispatched (s.serial + 1) keys rule instant s.flags)) := tells_note rfl rfl s
  have calm := noted.change (u := { s.note (.dispatched (s.serial + 1) keys rule instant s.flags) with
    presses := s.presses.map Press.disturb
    pending := s.pending.filter (·.deadline.isNone) }) rfl rfl rfl
  refine (calm.after (Tells.foldl_quiet (fun p _ s => tells_endCountdown rules keys s p) _)).change rfl rfl rfl

/-- What a press arms when it begins. -/
def pressEvents (rules : List Manipulator) (rule : Option Nat) : List Event :=
  (rule.map fun i => eventsOf rules i (·.onPress)).getD []

theorem tells_dispatch (once : ∀ m ∈ rules, ArmsOnce m) (keys : List Key) (rule : Option Nat) (instant : Nat)
    (s : State) :
    Tells (List.replicate ((pressEvents rules rule).countP armsKeys) (s.serial + 1, true)) s
      (dispatch rules keys rule instant s) := by
  have disturbs := tells_disturbed rules keys rule instant s
  unfold pressEvents
  obtain ⟨i, m, rfl, hm⟩ | hr := rule_cases rules rule
  · have hs : (disturbed rules keys (some i) instant s).serial = s.serial + 1 := rfl
    have lazy : LazyModifiers m.onPress :=
      (once m (List.mem_of_getElem? hm)).lazy fun e he => by simp [Manipulator.events, he]
    have begun := disturbs.change (u := { disturbed rules keys (some i) instant s with
      presses := (disturbed rules keys (some i) instant s).presses ++ [begun (s.serial + 1) keys i instant m]
      pending := (disturbed rules keys (some i) instant s).pending ++ awaited (s.serial + 1) keys i m
      serial := s.serial + 1 + if m.holdThreshold.isSome then 1 else 0 }) rfl rfl rfl
    have he : (((some i).map fun i => eventsOf rules i (·.onPress)).getD []) = m.onPress := by simp [eventsOf, hm]
    rw [dispatch_rule rules keys hm, beginRule_eq hs, he]
    exact begun.after (tells_emit _ _ _ _ lazy)
  · have unarmed : ((rule.map fun i => eventsOf rules i (·.onPress)).getD []) = [] := by
      cases rule with
      | none => rfl
      | some i => simp [eventsOf, hr i rfl]
    rw [dispatch_plain rules keys hr, unarmed]
    have begun := disturbs.change (u := { disturbed rules keys rule instant s with
      presses := (disturbed rules keys rule instant s).presses ++
        [{ id := s.serial + 1, held := keys, rule := none, since := instant }] }) rfl rfl rfl
    exact begun.after (tells_holdDown _ _ _)

theorem tells_startCountdown (id : Nat) (m : Manipulator) (instant : Nat) (s : State) :
    Tells [] s (startCountdown id m instant s) := by
  unfold startCountdown
  split
  · exact .refl s
  · exact (Tells.refl s).change rfl rfl rfl

variable (rules) in
theorem tells_endPress (p : Press) (instant : Nat) (s : State) : Tells [] s (endPress rules p instant s) := by
  have dropped : Tells [] s ((s.drop p.id).note (.released p.id)) :=
    ((Tells.refl s).change rfl rfl rfl).after (tells_note rfl rfl (s.drop p.id))
  unfold endPress
  simp only
  split
  · exact dropped
  · split
    · exact dropped
    · rename_i i _ _ m _
      have tapped : Tells [] ((s.drop p.id).note (.released p.id))
          (if isTap m p instant then ((s.drop p.id).note (.released p.id)).emit p.id i .tap none m.onTap
            else (s.drop p.id).note (.released p.id)) := by
        split
        · exact tells_emit_none _ _ _ _ _
        · exact .refl _
      refine dropped.after ?_
      unfold endRule
      simp only
      split
      · exact tapped.change rfl rfl rfl
      · exact (tapped.after (tells_emit_none _ _ _ _ _)).after (tells_startCountdown _ _ _ _)

/-- A key that goes up takes the lazy keys of its press along. -/
theorem tells_release (k : Key) (instant : Nat) (s : State) :
    Tells ((s.holder? k).elim [] fun p => (s.leaving p.id).map fun a => (a.press, false)) s
      (release rules k instant s) := by
  cases hk : s.holder? k with
  | none =>
    rw [release_none rules hk]
    exact tells_note rfl rfl s
  | some p =>
    have kept : Tells [] s (s.updatePress p.id (Press.keep (p.held.filter (· != k)))) :=
      (Tells.refl s).change rfl rfl rfl
    have gone := kept.after (tells_releaseOutputs _ p)
    simp only [release, hk]
    split
    · exact gone.before (tells_endPress rules p instant _)
    · exact gone

end

end KeyRules.Engine
