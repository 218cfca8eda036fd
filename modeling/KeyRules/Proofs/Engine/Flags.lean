import KeyRules.Proofs.Engine.Presses
import KeyRules.Proofs.Placement

/-!
# Flags and the journal

Flags change only when events are sent, and the journal has a line for each event list. So a flag has the value that
the journal wrote last (`Reachable.flag_eq`), and what an operation does to the flags is read off its lines.
-/

namespace KeyRules.Engine

def write? (f : Flag) : Event → Option Bool
  | .setFlag g value => if g = f then some value else none
  | _ => none

/-- The value that events leave a flag with, if they write it. -/
def lastWrite (f : Flag) (es : List Event) : Option Bool := (es.filterMap (write? f)).getLast?

theorem lastWrite_append (f : Flag) (es more : List Event) :
    lastWrite f (es ++ more) = (lastWrite f more).or (lastWrite f es) := by
  rw [lastWrite, List.filterMap_append, List.getLast?_append]
  rfl

theorem lastWrite_cons (f : Flag) (e : Event) (es : List Event) :
    lastWrite f (e :: es) = (lastWrite f es).or (write? f e) := by
  rw [← List.singleton_append, lastWrite_append]
  cases h : write? f e <;> simp [lastWrite, h]

theorem lastWrite_eq_none {f : Flag} {es : List Event} (h : ∀ e ∈ es, e.flag? ≠ some f) : lastWrite f es = none := by
  refine List.getLast?_eq_none_iff.2 (List.filterMap_eq_nil_iff.2 fun e he => ?_)
  cases e with
  | setFlag g value => exact if_neg fun hg => h _ he (congrArg some hg)
  | _ => rfl

theorem lastWrite_events (f : Flag) (a : Action) (isLazy : Bool) : lastWrite f (a.eventsWith isLazy) = none :=
  lastWrite_eq_none fun e he => by simp [a.eventsWith_flag isLazy e he]

def Stage.events : Stage → Manipulator → List Event
  | press => Manipulator.onPress
  | tap => Manipulator.onTap
  | hold => Manipulator.onHold
  | release => Manipulator.onRelease
  | invoked => onInvoked
  | canceled => onCanceled

theorem Stage.events_subset (stage : Stage) (m : Manipulator) : stage.events m ⊆ m.events := by
  intro e he
  unfold Manipulator.events
  cases stage with
  | press => simp_all [events]
  | tap => simp_all [events]
  | hold => simp_all [events]
  | release => simp_all [events]
  | invoked =>
    simp only [events, onInvoked] at he
    cases h : m.delayed <;> simp_all
  | canceled =>
    simp only [events, onCanceled] at he
    cases h : m.delayed <;> simp_all

/-- The value that a line leaves a flag with, if its events write it. -/
def Incident.writes? (rules : List Manipulator) (f : Flag) : Incident → Option Bool
  | emitted _ rule stage => lastWrite f (eventsOf rules rule stage.events)
  | _ => none

/-- The value that lines leave a flag with, if their events write it. -/
def written (rules : List Manipulator) (f : Flag) (lines : List Incident) : Option Bool :=
  (lines.filterMap (Incident.writes? rules f)).getLast?

section
variable {rules : List Manipulator} {f : Flag}

theorem writes_of_sending (l : Incident) (hl : l.isSending = true) : l.writes? rules f = none := by
  cases l <;> first | rfl | cases hl

theorem written_bare (j : List Incident) : written rules f (j.filter fun i => !i.isSending) = written rules f j := by
  rw [written, filterMap_bare writes_of_sending, written]

theorem written_append (lines more : List Incident) :
    written rules f (lines ++ more) = (written rules f more).or (written rules f lines) := by
  rw [written, List.filterMap_append, List.getLast?_append]
  rfl

theorem written_cons (l : Incident) (lines : List Incident) :
    written rules f (l :: lines) = (written rules f lines).or (l.writes? rules f) := by
  rw [← List.singleton_append, written_append]
  cases h : l.writes? rules f <;> simp [written, h]

@[simp] theorem written_nil : written rules f [] = none := rfl

theorem written_eq_none {lines : List Incident} (h : ∀ l ∈ lines, l.writes? rules f = none) :
    written rules f lines = none := List.getLast?_eq_none_iff.2 (List.filterMap_eq_nil_iff.2 h)

/-! ## Sending leaves flags alone -/

namespace State

theorem flag_setFlag (s : State) (g : Flag) (value : Bool) (f : Flag) :
    (s.setFlag g value).flag f = if g = f then value else s.flag f := by
  unfold setFlag flag
  cases value with
  | true =>
    by_cases hg : g ∈ s.flags
    · by_cases h : g = f
      · subst h
        simp [hg]
      · simp [hg, h]
    · by_cases h : g = f
      · subst h
        simp [hg]
      · simp [hg, h, Ne.symm h]
  | false =>
    by_cases h : g = f
    · simp [h]
    · simp [h, Ne.symm h]

theorem flag_congr {s t : State} (h : t.flags = s.flags) (f : Flag) : t.flag f = s.flag f := by
  rw [flag, h, flag]

theorem flags_foldl {α : Type} {f : State → α → State} (hf : ∀ s a, (f s a).flags = s.flags) (l : List α) :
    ∀ s : State, (l.foldl f s).flags = s.flags := by
  induction l with
  | nil => exact fun _ => rfl
  | cons a l ih =>
    intro s
    rw [List.foldl_cons, ih, hf]

theorem flags_sendAll (s : State) (os : List Output) : (s.sendAll os).flags = s.flags :=
  flags_foldl (f := send) (fun _ _ => rfl) os s

theorem flags_sendArmed (s : State) : s.sendArmed.flags = s.flags :=
  flags_foldl (f := sendWaiting) (fun t a => flags_sendAll (t.note (.applied a.press a.keys)) _) _ _

theorem flags_sendDown (s : State) (k : Key) : (s.sendDown k).flags = s.flags := by
  show (if k.isModifier then s else s.sendArmed).flags = s.flags
  split
  · rfl
  · exact flags_sendArmed s

theorem flags_sendDowns (s : State) (ks : List Key) : (s.sendDowns ks).flags = s.flags :=
  flags_foldl flags_sendDown ks s

theorem flags_sendUps (s : State) (ks : List Key) : (s.sendUps ks).flags = s.flags := flags_sendAll s _

theorem flags_holdDown (s : State) (id : Nat) (ks : List Key) : (s.holdDown id ks).flags = s.flags :=
  flags_sendDowns s ks

theorem flags_disarm (s : State) (a : Armed) : (s.disarm a).flags = s.flags := by
  unfold disarm
  simp only
  split
  · exact flags_sendUps _ _
  · rfl

theorem flags_releaseOutputs (s : State) (p : Press) : (s.releaseOutputs p).flags = s.flags :=
  (flags_foldl flags_disarm _ _).trans (flags_sendUps s p.outputs)

theorem flag_sendEvent (holder : Option Nat) (s : State) (e : Event) (f : Flag) :
    (sendEvent holder s e).flag f = (write? f e).getD (s.flag f) := by
  cases e with
  | setFlag g value =>
    rw [sendEvent, flag_setFlag, write?]
    split <;> rfl
  | paste text => exact flag_congr rfl f
  | stroke stroke =>
    refine flag_congr ?_ f
    cases holder with
    | none => exact (flags_sendUps _ _).trans (flags_sendDowns _ _)
    | some id =>
      simp only [sendEvent]
      split
      · rfl
      · exact flags_holdDown s id _

theorem flag_sendEvents (holder : Option Nat) (es : List Event) (f : Flag) :
    ∀ s : State, (s.sendEvents holder es).flag f = (lastWrite f es).getD (s.flag f) := by
  induction es with
  | nil => exact fun _ => rfl
  | cons e es ih =>
    intro s
    rw [lastWrite_cons, sendEvents, List.foldl_cons]
    refine (ih (sendEvent holder s e)).trans ?_
    rw [flag_sendEvent]
    cases lastWrite f es <;> rfl

theorem flag_emit (s : State) (press rule : Nat) (stage : Stage) (holder : Option Nat) (es : List Event) (f : Flag) :
    (s.emit press rule stage holder es).flag f = (lastWrite f es).getD (s.flag f) :=
  flag_sendEvents holder es f _

end State

/-! ## What an operation writes -/

theorem eventsOf_some {i : Nat} {m : Manipulator} (hm : rules[i]? = some m) (list : Manipulator → List Event) :
    eventsOf rules i list = list m := by
  simp [eventsOf, hm]

/-- A line of a rule writes what the event list of its stage writes. -/
theorem writes_emitted {press i : Nat} {m : Manipulator} (hm : rules[i]? = some m) (stage : Stage) :
    (Incident.emitted press i stage).writes? rules f = lastWrite f (stage.events m) :=
  congrArg (lastWrite f) (eventsOf_some hm _)

theorem written_emitted (press i : Nat) (stage : Stage) :
    written rules f [.emitted press i stage] = lastWrite f (eventsOf rules i stage.events) := by
  rw [written_cons, written_nil, Option.none_or]
  rfl

theorem written_cons_quiet {l : Incident} (hl : l.writes? rules f = none) (lines : List Incident) :
    written rules f (l :: lines) = written rules f lines := by
  rw [written_cons, hl, Option.or_none]

theorem writes_elsewhere {i : Nat} (h : ∀ m, rules[i]? = some m → ¬m.Writes f) (press : Nat) (stage : Stage) :
    (Incident.emitted press i stage).writes? rules f = none := by
  cases hm : rules[i]? with
  | none =>
    rw [Incident.writes?, eventsOf, hm]
    rfl
  | some m =>
    rw [writes_emitted hm]
    exact lastWrite_eq_none fun e he hf => h m hm ⟨e, stage.events_subset m he, hf⟩

theorem fire_flag (s : State) (d : Deadline) (timer : Timer) :
    (fire rules s d timer).flag f = (written rules f (fireLines d timer)).getD (s.flag f) := by
  cases timer with
  | countdown p =>
    rw [fireLines, written_cons_quiet rfl, written_cons_quiet rfl, written_emitted]
    exact State.flag_emit _ _ _ _ _ _ f
  | hold p =>
    rw [fire, fireHold, fireLines, written_cons_quiet rfl]
    cases hp : p.rule with
    | none => rfl
    | some i =>
      have he := State.flag_emit ((s.note (.fired d)).updatePress p.id Press.fired) p.id i .hold (some p.id)
        (eventsOf rules i (·.onHold)) f
      rw [Option.map_some, Option.toList_some, written_emitted]
      simp only
      split
      · exact he
      · exact he

theorem endCountdown_flag (keys : List Key) (s : State) (p : Pending) :
    (endCountdown rules keys s p).flag f = (written rules f [ending keys p]).getD (s.flag f) := by
  unfold endCountdown ending
  split
  · rfl
  · rw [written_emitted]
    exact State.flag_emit _ _ _ _ _ _ f

theorem endCountdowns_flag (keys : List Key) (ps : List Pending) :
    ∀ s : State, (ps.foldl (endCountdown rules keys) s).flag f =
      (written rules f (ps.map (ending keys))).getD (s.flag f) := by
  induction ps with
  | nil => exact fun _ => rfl
  | cons p ps ih =>
    intro s
    have hc : written rules f ((p :: ps).map (ending keys)) =
        (written rules f (ps.map (ending keys))).or (written rules f [ending keys p]) := written_append [_] _
    rw [List.foldl_cons, ih, endCountdown_flag, hc]
    cases written rules f (ps.map (ending keys)) <;> rfl

variable (rules f) in
theorem disturbed_flag (keys : List Key) (rule : Option Nat) (instant : Nat) (s : State) :
    (disturbed rules keys rule instant s).flag f =
      (written rules f (s.running.map (ending keys))).getD (s.flag f) :=
  endCountdowns_flag keys s.running _

theorem dispatch_flag (keys : List Key) (rule : Option Nat) (instant : Nat) (s : State) :
    (dispatch rules keys rule instant s).flag f =
      (written rules f (dispatchLines rules keys rule instant s)).getD (s.flag f) := by
  rw [dispatchLines, written_cons, written_append]
  obtain ⟨i, m, rfl, hm⟩ | hr := rule_cases rules rule
  · have hs : (disturbed rules keys (some i) instant s).serial = s.serial + 1 := rfl
    have hb : written rules f (beginLines rules (s.serial + 1) (some i)) = lastWrite f m.onPress := by
      have hl : beginLines rules (s.serial + 1) (some i) = [.emitted (s.serial + 1) i .press] := by
        simp [beginLines, Option.filter, hm]
      rw [hl, written_cons, writes_emitted hm]
      rfl
    rw [dispatch_rule rules keys hm, beginRule_eq hs, State.flag_emit, hb]
    have hd := disturbed_flag rules f keys (some i) instant s
    cases lastWrite f m.onPress with
    | some value => rfl
    | none =>
      refine hd.trans ?_
      cases written rules f (s.running.map (ending keys)) <;> rfl
  · have hn : rule.filter (fun i => rules[i]?.isSome) = none :=
      Option.filter_eq_none_iff.2 fun i hi => by simp [hr i hi]
    have hb : beginLines rules (s.serial + 1) rule = [] := by
      rw [beginLines, hn]
      rfl
    have hd := disturbed_flag rules f keys rule instant s
    rw [dispatch_plain rules keys hr, beginPlain, hb]
    refine (State.flag_congr (State.flags_holdDown _ _ _) f).trans (hd.trans ?_)
    cases written rules f (s.running.map (ending keys)) <;> rfl

theorem startCountdown_flags (id instant : Nat) (m : Manipulator) (s : State) :
    (startCountdown id m instant s).flags = s.flags := by
  unfold startCountdown
  split <;> rfl

theorem endRule_flag (p : Press) {i : Nat} {m : Manipulator} (hm : rules[i]? = some m) (instant : Nat) (s : State) :
    (endRule p i m instant s).flag f = (written rules f (endLines p i m instant)).getD (s.flag f) := by
  have release : ∀ t : State, (startCountdown p.id m instant (t.emit p.id i .release none m.onRelease)).flag f =
      (lastWrite f m.onRelease).getD (t.flag f) := fun t =>
    (State.flag_congr (startCountdown_flags _ _ _ _) f).trans (State.flag_emit _ _ _ _ _ _ f)
  have one : ∀ stage : Stage, written rules f [.emitted p.id i stage] = lastWrite f (stage.events m) := fun stage => by
    rw [written_cons, writes_emitted hm]
    rfl
  unfold endRule endLines
  cases isTap m p instant with
  | false => exact (release s).trans (by simp [one, Stage.events])
  | true =>
    cases halts m.onTap with
    | true => exact (State.flag_emit _ _ _ _ _ _ f).trans (by simp [one, Stage.events])
    | false =>
      refine (release (s.emit p.id i .tap none m.onTap)).trans ?_
      rw [State.flag_emit]
      simp only [if_true, Bool.true_and, Bool.false_eq_true, if_false, List.cons_append, List.nil_append]
      rw [written_cons, one, writes_emitted hm]
      cases h : lastWrite f m.onRelease <;> simp [Stage.events, h]

theorem release_flag (k : Key) (instant : Nat) (s : State) :
    (release rules k instant s).flag f = (written rules f (releaseLines rules k instant s)).getD (s.flag f) := by
  cases hk : s.holder? k with
  | none =>
    simp only [release, releaseLines, hk]
    rfl
  | some p =>
    have free : ∀ u : State, u.flags = ((s.updatePress p.id (Press.keep (p.held.filter (· != k)))).releaseOutputs
        p).flags → u.flag f = s.flag f := fun u hu =>
      State.flag_congr (hu.trans (State.flags_releaseOutputs _ p)) f
    simp only [release, releaseLines, hk]
    split
    · unfold endPress
      obtain ⟨i, m, hr, hm⟩ | hr := rule_cases rules p.rule
      · simp only [hr, hm, Option.bind_some, Option.map_some, Option.getD_some]
        rw [endRule_flag p hm, written_cons]
        refine congrArg₂ Option.getD ?_ (free _ rfl)
        cases written rules f (endLines p i m instant) <;> rfl
      · rw [bind_unmatched rules hr]
        cases hp : p.rule with
        | none => exact free _ rfl
        | some i =>
          simp only [hr i hp]
          exact free _ rfl
    · exact free _ rfl

/-! ## Every moment of every run -/

variable (rules) in
/-- Each flag has the value that the journal wrote last. -/
def Recorded (s : State) : Prop := ∀ f, s.flag f = (written rules f s.journal).getD false

theorem Recorded.extend {s t : State} (h : Recorded rules s) {more : List Incident}
    (journal : t.bare.journal = s.bare.journal ++ more)
    (flags : ∀ f, t.flag f = (written rules f more).getD (s.flag f)) : Recorded rules t := by
  intro f
  have hj : written rules f t.journal = (written rules f more).or (written rules f s.journal) := by
    rw [← written_append, written, filterMap_lines writes_of_sending journal, written, List.filterMap_append]
  rw [flags, h f, hj]
  cases written rules f more <;> rfl

theorem Recorded.quiet {s t : State} (h : Recorded rules s) {more : List Incident}
    (journal : t.journal = s.journal ++ more) (plain : ∀ l ∈ more, ∀ f, l.writes? rules f = none) (flags : t.flags = s.flags) : Recorded rules t := by
  intro f
  rw [State.flag_congr flags, h f, journal, written_append, written_eq_none fun l hl => plain l hl f]
  rfl

theorem Recorded.note {s : State} (h : Recorded rules s) {l : Incident} (hl : ∀ f, l.writes? rules f = none) :
    Recorded rules (s.note l) := by
  refine h.quiet rfl (fun i hi => ?_) rfl
  rw [List.mem_singleton.1 hi]
  exact hl

theorem Recorded.move {x y : Session} (h : Recorded rules x.state) (step : Move rules x y) :
    Recorded rules y.state := by
  cases step with
  | fire first => exact h.extend (fire_journal rules _ _ _) fun f => fire_flag _ _ _
  | dispatch simultaneous free oldest once single =>
    exact h.extend (dispatch_journal rules _ _ _ _) fun f => dispatch_flag _ _ _ _
  | @holdBack k instant i free oldest found together =>
    have hn : Recorded rules (x.state.note (.buffered k (openCandidates rules x.state k) x.state.flags)) :=
      h.note fun _ => rfl
    exact hn
  | join held oldest narrowed some_left => exact h
  | close held due => exact h.note fun _ => rfl
  | @finish b i held idle first ready =>
    obtain ⟨more, hs, hl⟩ := handOver_eq rules b i x.state
    have ht : Recorded rules (handOver rules b i x.state) := by
      rw [hs]
      refine h.quiet rfl (fun l hm f => ?_) rfl
      obtain ⟨t, rfl⟩ := hl l hm
      rfl
    simp only [finish_eq]
    exact ht.extend (dispatch_journal rules _ _ _ _) fun f => dispatch_flag _ _ _ _
  | @flush b held =>
    have hn : Recorded rules (x.state.note (.flushed b.keys.length)) := h.note fun _ => rfl
    exact hn

theorem Reachable.recorded {x : Session} (h : Reachable rules x) : Recorded rules x.state := by
  induction h with
  | start => exact fun _ => rfl
  | move _ step ih => exact ih.move step
  | @tick x _ _ instant ih =>
    obtain ⟨more, ht, hl⟩ := x.state.tick_eq instant
    rw [ht]
    refine ih.quiet rfl (fun l hm f => ?_) rfl
    obtain ⟨t, n, rfl⟩ := hl l hm
    rfl
  | accept _ _ _ ih => exact ih.note fun _ => rfl
  | refuse _ _ _ ih => exact ih.note fun _ => rfl
  | release _ _ _ ih => exact ih.extend (release_journal rules _ _ _) fun f => release_flag _ _ _
  | take _ _ ih => exact ih

end

end KeyRules.Engine
