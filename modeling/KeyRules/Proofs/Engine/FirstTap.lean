import KeyRules.Proofs.Engine.Gates
import KeyRules.Proofs.Engine.Outcomes
import KeyRules.Proofs.Engine.OwnKeys

/-!
# First taps

A double-tap pattern is two rules: one for a second press, and after it one for a first press, which sets the flag and
counts down. The journal tells what became of the first tap. Its delayed action waits exactly while the tap was seen
and nothing else happened, and the flag is set then, but also after another rule took the key and the countdown was
dropped (`Reachable.remembered`).
-/

namespace KeyRules.Engine

/-- What became of the first tap of a pattern. -/
inductive TapStep where
  /-- A first press began. -/
  | seen
  /-- A second press began. -/
  | fired
  /-- The countdown ran out, or another key ended it. -/
  | fellBack
  /-- The key went down again while the countdown ran. -/
  | dropped
  deriving DecidableEq, Repr

def TapStep.value? : TapStep → Option Bool
  | seen => some true
  | fired | fellBack => some false
  | dropped => none

/-- What a line says of the pattern whose rules stand at `n` and after it. -/
def Incident.tapStep? (n : Nat) : Incident → Option TapStep
  | emitted _ rule .press => if rule = n + 1 then some .seen else if rule = n then some .fired else none
  | emitted _ rule .invoked | emitted _ rule .canceled => if rule = n + 1 then some .fellBack else none
  | dropped _ rule => if rule = n + 1 then some .dropped else none
  | _ => none

def tapSteps (n : Nat) (journal : List Incident) : List TapStep := journal.filterMap (Incident.tapStep? n)

def lastTap (n : Nat) (journal : List Incident) : Option TapStep := (tapSteps n journal).getLast?

/-- The rules of a pattern stand at `n` and after it, and no other rule writes its flag. -/
structure Remembers (rules : List Manipulator) (d : DoubleTap) (interval : Millis) (n : Nat) : Prop where
  second : rules[n]? = some d.second
  first : rules[n + 1]? = some (d.first interval)
  sole : ∀ j m, rules[j]? = some m → m.Writes d.flagInUse → j = n ∨ j = n + 1

section
variable {rules : List Manipulator} {d : DoubleTap} {interval : Millis} {n : Nat}

@[simp] theorem tapSteps_append (j more : List Incident) : tapSteps n (j ++ more) = tapSteps n j ++ tapSteps n more :=
  List.filterMap_append

theorem tapSteps_eq_nil {j : List Incident} (h : ∀ l ∈ j, l.tapStep? n = none) : tapSteps n j = [] :=
  List.filterMap_eq_nil_iff.2 h

theorem tapSteps_cons_quiet {l : Incident} (hl : l.tapStep? n = none) (j : List Incident) :
    tapSteps n (l :: j) = tapSteps n j := List.filterMap_cons_none hl

theorem lastTap_append (j more : List Incident) :
    lastTap n (j ++ more) = (lastTap n more).or (lastTap n j) := by
  rw [lastTap, tapSteps_append, List.getLast?_append]
  rfl

theorem lastTap_quiet (j : List Incident) {more : List Incident} (quiet : ∀ l ∈ more, l.tapStep? n = none) :
    lastTap n (j ++ more) = lastTap n j := by
  rw [lastTap_append, lastTap, tapSteps_eq_nil quiet]
  rfl

theorem tapStep_of_sending (l : Incident) (hl : l.isSending = true) : l.tapStep? n = none := by
  cases l <;> first | rfl | cases hl

theorem lastTap_bare (j : List Incident) : lastTap n (j.filter fun i => !i.isSending) = lastTap n j := by
  rw [lastTap, tapSteps, filterMap_bare tapStep_of_sending]
  rfl

theorem lastTap_lines {s t : State} {lines : List Incident} (journal : t.bare.journal = s.bare.journal ++ lines) :
    lastTap n t.journal = (lastTap n lines).or (lastTap n s.journal) := by
  rw [← lastTap_bare t.journal, ← lastTap_bare s.journal, ← lastTap_append]
  exact congrArg (lastTap n) journal

theorem lastWrite_clear_then (f : Flag) (a : Action) : lastWrite f (.setFlag f false :: a.events) = some false := by
  rw [lastWrite_cons, Action.events, lastWrite_events]
  simp [write?]

/-- Lines write the flag as they tell what became of the first tap. -/
theorem Remembers.writes (h : Remembers rules d interval n) (l : Incident) :
    l.writes? rules d.flagInUse = (l.tapStep? n).bind TapStep.value? := by
  cases l with
  | emitted press rule stage =>
    by_cases hf : rule = n + 1
    · subst hf
      rw [writes_emitted h.first]
      cases stage with
      | press => simp [Incident.tapStep?, Stage.events, DoubleTap.first, lastWrite, write?, TapStep.value?]
      | invoked =>
        simp only [Incident.tapStep?, if_true]
        exact lastWrite_clear_then _ _
      | canceled =>
        simp only [Incident.tapStep?, if_true]
        exact lastWrite_clear_then _ _
      | _ => rfl
    · by_cases hs : rule = n
      · subst hs
        rw [writes_emitted h.second]
        cases stage with
        | press =>
          simp only [Incident.tapStep?, if_neg hf, if_true]
          exact lastWrite_clear_then _ _
        | _ => simp [Incident.tapStep?, Stage.events, DoubleTap.second, onInvoked, onCanceled, lastWrite]
      · have hn : (Incident.emitted press rule stage).tapStep? n = none := by
          cases stage <;> simp [Incident.tapStep?, hf, hs]
        rw [hn, Option.bind_none]
        exact writes_elsewhere (fun m hm hw => (h.sole rule m hm hw).elim hs hf) press stage
  | dropped press rule =>
    simp only [Incident.writes?, Incident.tapStep?]
    split <;> rfl
  | _ => rfl

theorem Remembers.written (h : Remembers rules d interval n) (lines : List Incident) :
    Engine.written rules d.flagInUse lines = ((tapSteps n lines).filterMap TapStep.value?).getLast? := by
  rw [Engine.written, tapSteps, List.filterMap_filterMap, funext h.writes]

/-- The delayed action of the first press is there exactly while the tap was seen last. The flag is set then, and
after the countdown was dropped. -/
structure Remembered (d : DoubleTap) (n : Nat) (s : State) : Prop where
  waits : (awaitingOf (n + 1) s.pending).length = if lastTap n s.journal = some .seen then 1 else 0
  shown : s.flag d.flagInUse = true ↔ lastTap n s.journal = some .seen ∨ lastTap n s.journal = some .dropped

theorem Remembered.quiet {s t : State} (hs : Remembered d n s) (h : Remembers rules d interval n)
    {lines : List Incident} (journal : t.bare.journal = s.bare.journal ++ lines) (quiet : tapSteps n lines = [])
    (flag : t.flag d.flagInUse = (Engine.written rules d.flagInUse lines).getD (s.flag d.flagInUse))
    (waits : (awaitingOf (n + 1) t.pending).length = (awaitingOf (n + 1) s.pending).length) : Remembered d n t := by
  have hl : lastTap n t.journal = lastTap n s.journal := by
    rw [lastTap_lines journal, lastTap, quiet]
    rfl
  rw [h.written, quiet] at flag
  refine ⟨?_, ?_⟩
  · rw [waits, hl]
    exact hs.waits
  · rw [hl, flag]
    exact hs.shown

theorem Remembered.write {s t : State} (hs : Remembered d n s) (lines : List Incident)
    (journal : t.journal = s.journal ++ lines) (quiet : ∀ l ∈ lines, l.tapStep? n = none) (flags : t.flags = s.flags)
    (pending : t.pending = s.pending) : Remembered d n t := by
  have hl : lastTap n t.journal = lastTap n s.journal := (congrArg (lastTap n) journal).trans (lastTap_quiet _ quiet)
  refine ⟨?_, ?_⟩
  · rw [pending, hl]
    exact hs.waits
  · rw [State.flag_congr flags, hl]
    exact hs.shown

theorem Remembered.note {s : State} (hs : Remembered d n s) {l : Incident} (hl : l.tapStep? n = none) :
    Remembered d n (s.note l) :=
  hs.write [l] rfl (fun j hj => by rw [List.mem_singleton.1 hj]; exact hl) rfl rfl

/-! ## Timers -/

theorem tapSteps_fire_hold (e : Deadline) (p : Press) : tapSteps n (fireLines e (.hold p)) = [] := by
  refine tapSteps_eq_nil fun l hl => ?_
  obtain rfl | ⟨q, hq, -⟩ | ⟨q, i, -, -, rfl⟩ := fireLines_mem hl
  · rfl
  · cases hq
  · rfl

theorem tapSteps_fire_countdown (e : Deadline) (p : Pending) :
    tapSteps n (fireLines e (.countdown p)) = if p.rule = n + 1 then [.fellBack] else [] := by
  rw [fireLines, tapSteps_cons_quiet rfl, tapSteps_cons_quiet rfl]
  split <;> simp [tapSteps, Incident.tapStep?, *]

theorem Remembers.awaiting_fire_hold (h : Remembers rules d interval n) {s : State} (ho : Orderly rules s)
    (e : Deadline) {p : Press} (hp : p ∈ s.presses) :
    awaitingOf (n + 1) (fire rules s e (.hold p)).pending = awaitingOf (n + 1) s.pending := by
  rw [← State.bare_pending, fire]
  cases hr : p.rule with
  | none =>
    rw [bare_fireHold_plain rules _ hr]
    rfl
  | some i =>
    rw [bare_fireHold rules _ hr]
    split
    · rename_i halting
      refine ho.awaiting_other hp fun he => ?_
      obtain rfl : i = n + 1 := Option.some.inj (hr.symm.trans he)
      rw [eventsOf_some h.first] at halting
      cases halting
    · rfl

theorem Remembered.fire {s : State} (hs : Remembered d n s) (h : Remembers rules d interval n) (ho : Orderly rules s)
    {e : Deadline} {timer : Timer} (first : earliest s.timers = some (e, timer)) :
    Remembered d n (fire rules s e timer) := by
  have hj := fire_journal rules s e timer
  have hw : (Engine.fire rules s e timer).flag d.flagInUse = _ := fire_flag s e timer
  obtain ⟨p, hp, runs, rfl⟩ | ⟨p, hp, timer, rfl⟩ := earliest_timers first
  · have pending : (Engine.fire rules s e (.countdown p)).pending = (s.forgetPending p.press).pending := by
      rw [← State.bare_pending, Engine.fire, bare_fireCountdown]
      rfl
    have gone := (ho.awaiting_forget (i := n + 1) hp).length_eq
    rw [List.length_append, ← pending] at gone
    by_cases hr : p.rule = n + 1
    · -- the first tap falls back
      rw [if_pos hr, List.length_singleton, hs.waits] at gone
      have steps := (tapSteps_fire_countdown (n := n) e p).trans (if_pos hr)
      have hl : lastTap n (Engine.fire rules s e (.countdown p)).journal = some .fellBack := by
        rw [lastTap_lines hj, lastTap, steps]
        rfl
      rw [h.written, steps] at hw
      refine ⟨?_, ?_⟩
      · rw [hl, if_neg (by simp)]
        split at gone <;> omega
      · rw [hw, hl]
        simp [TapStep.value?]
    · rw [if_neg hr, List.length_nil, Nat.zero_add] at gone
      exact hs.quiet h hj ((tapSteps_fire_countdown e p).trans (if_neg hr)) hw gone.symm
  · exact hs.quiet h hj (tapSteps_fire_hold e p) hw (by rw [h.awaiting_fire_hold ho e hp])

/-! ## Presses that begin -/

/-- What ends the countdown of a delayed action. -/
def TapStep.ofEnding (keys : List Key) (p : Pending) : TapStep :=
  if p.owners.any (· ∈ keys) then .dropped else .fellBack

theorem tapSteps_endings (keys : List Key) (ps : List Pending) :
    tapSteps n (ps.map (ending keys)) = (ps.filter (·.rule == n + 1)).map (TapStep.ofEnding keys) := by
  induction ps with
  | nil => rfl
  | cons p ps ih =>
    rw [List.map_cons]
    by_cases hr : p.rule = n + 1
    · have hs : (ending keys p).tapStep? n = some (TapStep.ofEnding keys p) := by
        unfold ending TapStep.ofEnding
        split <;> simp [Incident.tapStep?, hr]
      rw [List.filter_cons_of_pos (by simpa using hr), List.map_cons, ← ih]
      exact List.filterMap_cons_some hs
    · have hs : (ending keys p).tapStep? n = none := by
        unfold ending
        split <;> simp [Incident.tapStep?, hr]
      rw [List.filter_cons_of_neg (by simpa using hr), ← ih]
      exact tapSteps_cons_quiet hs _

/-- What a press of a rule says of the first tap. -/
def TapStep.ofRule (n : Nat) (rule : Option Nat) : List TapStep :=
  if rule = some (n + 1) then [.seen] else if rule = some n then [.fired] else []

/-- Only the rules of the pattern say something, and they drop nothing. -/
theorem TapStep.ofRule_cases (n : Nat) (rule : Option Nat) :
    (∃ step, ofRule n rule = [step] ∧ step ≠ .dropped) ∨
      (ofRule n rule = [] ∧ rule ≠ some n ∧ rule ≠ some (n + 1)) := by
  unfold ofRule
  by_cases hf : rule = some (n + 1)
  · exact .inl ⟨.seen, if_pos hf, by simp⟩
  · by_cases hs : rule = some n
    · exact .inl ⟨.fired, by rw [if_neg hf, if_pos hs], by simp⟩
    · exact .inr ⟨by rw [if_neg hf, if_neg hs], hs, hf⟩

theorem Remembers.tapSteps_begin (h : Remembers rules d interval n) (id : Nat) (rule : Option Nat) :
    tapSteps n (beginLines rules id rule) = TapStep.ofRule n rule := by
  unfold TapStep.ofRule
  by_cases hf : rule = some (n + 1)
  · simp [hf, beginLines, Option.filter, h.first, tapSteps, Incident.tapStep?]
  · by_cases hs : rule = some n
    · simp [hs, beginLines, Option.filter, h.second, tapSteps, Incident.tapStep?]
    · rw [if_neg hf, if_neg hs]
      refine tapSteps_eq_nil fun l hl => ?_
      obtain ⟨i, hi, rfl⟩ := Option.map_eq_some_iff.1 (Option.mem_toList.1 hl)
      have hi := (Option.filter_eq_some_iff.1 hi).1
      have hn : i ≠ n := fun he => hs (he ▸ hi)
      have hn1 : i ≠ n + 1 := fun he => hf (he ▸ hi)
      simp [Incident.tapStep?, hn, hn1]

theorem Remembers.awaiting_dispatch (h : Remembers rules d interval n) (keys : List Key) (rule : Option Nat)
    (instant : Nat) (s : State) :
    (awaitingOf (n + 1) (dispatch rules keys rule instant s).pending).length =
      (awaitingOf (n + 1) s.resting).length + if rule = some (n + 1) then 1 else 0 := by
  rw [← State.bare_pending]
  obtain ⟨i, m, rfl, hm⟩ | hr := rule_cases rules rule
  · rw [bare_dispatch_rule rules keys hm]
    show (awaitingOf (n + 1) (s.resting ++ awaited (s.serial + 1) keys i m)).length = _
    rw [awaitingOf_append, List.length_append]
    by_cases hi : i = n + 1
    · subst hi
      obtain rfl := Option.some.inj (hm.symm.trans h.first)
      simp [awaitingOf, awaited, DoubleTap.first]
    · have hn : awaitingOf (n + 1) (awaited (s.serial + 1) keys i m) = [] := by
        unfold awaited
        split <;> simp [awaitingOf, hi]
      simp [hn, hi]
  · have hn : rule ≠ some (n + 1) := fun he => by
      have := hr _ he
      rw [h.first] at this
      cases this
    rw [bare_dispatch_plain rules keys hr, if_neg hn]
    rfl

theorem Remembers.tapSteps_dispatch (h : Remembers rules d interval n) (keys : List Key) (rule : Option Nat)
    (instant : Nat) (s : State) :
    tapSteps n (dispatchLines rules keys rule instant s) =
      (s.running.filter (·.rule == n + 1)).map (TapStep.ofEnding keys) ++ TapStep.ofRule n rule := by
  rw [dispatchLines, tapSteps_cons_quiet rfl, tapSteps_append, tapSteps_endings, h.tapSteps_begin]

theorem lastTap_of_step {s t : State} {lines : List Incident} (journal : t.bare.journal = s.bare.journal ++ lines)
    {steps : List TapStep} {step : TapStep} (last : tapSteps n lines = steps ++ [step]) :
    lastTap n t.journal = some step := by
  rw [lastTap_lines journal, lastTap, last, List.getLast?_append]
  rfl

theorem Remembers.written_of_step (h : Remembers rules d interval n) {lines : List Incident} {steps : List TapStep}
    {step : TapStep} (last : tapSteps n lines = steps ++ [step]) {value : Bool} (hv : step.value? = some value) :
    Engine.written rules d.flagInUse lines = some value := by
  rw [h.written, last, List.filterMap_append, List.filterMap_cons_some hv, List.getLast?_append]
  rfl

/-- While a first press is in flight, neither rule of the pattern gets the key. -/
theorem Remembered.dispatch {s : State} (hs : Remembered d n s) (h : Remembers rules d interval n) {keys : List Key}
    {rule : Option Nat} (fresh : rule = some n ∨ rule = some (n + 1) → awaitingOf (n + 1) s.resting = [])
    (instant : Nat) : Remembered d n (dispatch rules keys rule instant s) := by
  have hj := dispatch_journal rules keys rule instant s
  have hw : (Engine.dispatch rules keys rule instant s).flag d.flagInUse = _ := dispatch_flag keys rule instant s
  have hn := h.awaiting_dispatch keys rule instant s
  have steps := h.tapSteps_dispatch keys rule instant s
  have total := (awaitingOf_resting_running (n + 1) s).length_eq
  rw [List.length_append, hs.waits] at total
  have running : (awaitingOf (n + 1) s.running).length = (s.running.filter (·.rule == n + 1)).length :=
    List.length_map _
  unfold TapStep.ofRule at steps
  by_cases hf : rule = some (n + 1)
  · -- a first press is seen
    rw [if_pos hf] at steps hn
    rw [fresh (.inr hf)] at hn
    rw [h.written_of_step steps rfl] at hw
    refine ⟨?_, ?_⟩
    · rw [lastTap_of_step hj steps, if_pos rfl]
      exact hn
    · rw [lastTap_of_step hj steps, hw]
      simp
  rw [if_neg hf] at steps hn
  by_cases hq : rule = some n
  · -- a second press fires
    rw [if_pos hq] at steps
    rw [fresh (.inl hq)] at hn
    rw [h.written_of_step steps rfl] at hw
    refine ⟨?_, ?_⟩
    · rw [lastTap_of_step hj steps, if_neg (by simp)]
      exact hn
    · rw [lastTap_of_step hj steps, hw]
      simp
  rw [if_neg hq, List.append_nil] at steps
  match hr : s.running.filter (·.rule == n + 1) with
  | [] =>
    rw [hr] at steps running
    refine hs.quiet h hj steps hw ?_
    rw [hn, hs.waits, ← total, running]
    simp
  | p :: ps =>
    -- the one countdown ends
    rw [hr] at steps running
    rw [running, List.length_cons] at total
    split at total
    · rename_i seen
      obtain rfl : ps = [] := List.length_eq_zero_iff.1 (by omega)
      have steps : tapSteps n (dispatchLines rules keys rule instant s) = [] ++ [TapStep.ofEnding keys p] := steps
      have hl := lastTap_of_step hj steps
      have set : s.flag d.flagInUse = true := hs.shown.2 (.inl seen)
      have waits : (awaitingOf (n + 1) (Engine.dispatch rules keys rule instant s).pending).length = 0 := by omega
      rw [h.written, steps] at hw
      unfold TapStep.ofEnding at hl hw
      split at hl
      · rename_i own
        rw [if_pos own] at hw
        refine ⟨by rw [hl, waits, if_neg (by simp)], ?_⟩
        rw [hl, hw]
        simp [TapStep.value?, set]
      · rename_i other
        rw [if_neg other] at hw
        refine ⟨by rw [hl, waits, if_neg (by simp)], ?_⟩
        rw [hl, hw]
        simp [TapStep.value?]
    · omega

/-! ## Keys that go up -/

theorem tapSteps_release (k : Key) (instant : Nat) (s : State) : tapSteps n (releaseLines rules k instant s) = [] := by
  refine tapSteps_eq_nil fun l hl => ?_
  obtain rfl | ⟨p, -, rfl | ⟨i, -, ⟨-, rfl⟩ | rfl⟩⟩ := releaseLines_mem rules hl <;> rfl

/-- A release keeps the delayed action of the first press: its tap does not halt. -/
theorem Remembers.awaiting_release (h : Remembers rules d interval n) {s : State} (ho : Orderly rules s) (k : Key)
    (instant : Nat) : awaitingOf (n + 1) (release rules k instant s).pending = awaitingOf (n + 1) s.pending := by
  cases hk : s.holder? k with
  | none =>
    rw [release_none rules hk]
    rfl
  | some p =>
    have hp := (holder_mem hk).1
    rw [← State.bare_pending, bare_release rules hk]
    split
    · obtain ⟨i, m, hr, hm⟩ | hr := rule_cases rules p.rule
      · rw [bare_endPress_rule rules hr hm]
        unfold settled
        simp only
        split
        · rename_i halting
          have other : p.rule ≠ some (n + 1) := fun he => by
            obtain rfl : i = n + 1 := Option.some.inj (hr.symm.trans he)
            obtain rfl := Option.some.inj (hm.symm.trans h.first)
            rw [Bool.and_eq_true] at halting
            cases halting.2
          split <;> exact ho.awaiting_other hp other
        · rw [awaitingOf_startCountdown]
          split <;> rfl
      · rw [bare_endPress_plain rules hr]
        rfl
    · rfl

/-! ## Every moment -/

/-- A first press in flight holds the key, so it does not wait to go down. -/
theorem Remembers.resting_nil (h : Remembers rules d interval n) {x : Session} (hx : Reachable rules x)
    (waiting : d.key ∈ x.waitingKeys) : awaitingOf (n + 1) x.state.resting = [] := by
  refine List.eq_nil_iff_forall_not_mem.2 fun id hid => ?_
  obtain ⟨c, hc, hr, -⟩ := mem_awaitingOf.1 hid
  obtain ⟨hm, hrests⟩ := List.mem_filter.1 hc
  obtain ⟨p, hp, he⟩ := List.mem_map.1 ((hx.orderly.resting_iff c hm).1 (Option.isNone_iff_eq_none.1 hrests))
  have hpr := hx.orderly.rule_eq c hm p hp he
  rw [hr] at hpr
  exact hx.key_taken hp (hx.held_key hp hpr h.first rfl) waiting

theorem Remembers.key (h : Remembers rules d interval n) {i : Nat} (hi : i = n ∨ i = n + 1) :
    ∃ m, rules[i]? = some m ∧ m.trigger = .single d.key true := by
  rcases hi with rfl | rfl
  · exact ⟨_, h.second, rfl⟩
  · exact ⟨_, h.first, rfl⟩

theorem Remembers.not_together (h : Remembers rules d interval n) {i : Nat} (hi : i = n ∨ i = n + 1) :
    rules[i]?.any (·.trigger.isTogether) = false := by
  obtain ⟨m, hm, trigger⟩ := h.key hi
  rw [hm, Option.any_some, trigger]
  rfl

theorem Remembered.handOver {s : State} (hs : Remembered d n s) (b : Buffer) (i : Nat) :
    Remembered d n (handOver rules b i s) := by
  obtain ⟨lines, ht, hl⟩ := handOver_eq rules b i s
  rw [ht]
  refine hs.write lines rfl (fun l hm => ?_) rfl rfl
  obtain ⟨t, rfl⟩ := hl l hm
  rfl

theorem Remembered.move {x y : Session} (hs : Remembered d n x.state) (h : Remembers rules d interval n)
    (hx : Reachable rules x) (step : Move rules x y) : Remembered d n y.state := by
  cases step with
  | fire first => exact hs.fire h hx.orderly first
  | @dispatch k instant later simultaneous free oldest once single =>
    refine hs.dispatch h (fun hr => h.resting_nil hx ?_) _
    have found : ∀ i, findRule rules x.state k simultaneous = some i → i = n ∨ i = n + 1 → d.key ∈ x.waitingKeys := by
      intro i hf hi
      obtain ⟨m, hm, trigger⟩ := h.key hi
      have hk := fits_found i m d.key true hf hm trigger List.mem_cons_self
      rw [Session.waitingKeys, oldest, ← List.mem_singleton.1 hk]
      exact List.mem_cons_self
    rcases hr with hr | hr
    · exact found n hr (.inl rfl)
    · exact found (n + 1) hr (.inr rfl)
  | @holdBack k instant i free oldest found together =>
    have hn : Remembered d n (x.state.note (.buffered k (openCandidates rules x.state k) x.state.flags)) := hs.note rfl
    exact ⟨hn.waits, hn.shown⟩
  | join held oldest narrowed some_left => exact ⟨hs.waits, hs.shown⟩
  | close held due => exact hs.note rfl
  | @finish b i held idle first ready =>
    have together := hx.finish_together held first
    simp only [finish_eq]
    refine (hs.handOver b i).dispatch h (fun hr => ?_) _
    rw [h.not_together (hr.imp Option.some.inj Option.some.inj)] at together
    cases together
  | @flush b held =>
    have hn : Remembered d n (x.state.note (.flushed b.keys.length)) := hs.note rfl
    exact ⟨hn.waits, hn.shown⟩

/-- At every moment the delayed action and the flag are as the journal tells. -/
theorem Reachable.remembered {x : Session} (hx : Reachable rules x) (h : Remembers rules d interval n) :
    Remembered d n x.state := by
  induction hx with
  | start => exact ⟨rfl, by simp [State.flag, lastTap, tapSteps]⟩
  | move hx step ih => exact ih.move h hx step
  | @tick x _ _ instant ih =>
    obtain ⟨more, ht, hl⟩ := x.state.tick_eq instant
    rw [ht]
    refine ih.write more rfl (fun l hm => ?_) rfl rfl
    obtain ⟨t, m, rfl⟩ := hl l hm
    rfl
  | accept _ _ _ ih => exact ih.note rfl
  | refuse _ _ _ ih => exact ih.note rfl
  | release hx _ _ ih =>
    exact ih.quiet h (release_journal rules _ _ _) (tapSteps_release _ _ _) (release_flag _ _ _)
      (by rw [h.awaiting_release hx.orderly])
  | take _ _ ih => exact ⟨ih.waits, ih.shown⟩

theorem Remembered.pending_iff {s : State} (hs : Remembered d n s) :
    (∃ c ∈ s.pending, c.rule = n + 1) ↔ lastTap n s.journal = some .seen := by
  have hw := hs.waits
  constructor
  · rintro ⟨c, hc, hr⟩
    have hm := List.length_pos_of_mem (mem_awaitingOf.2 ⟨c, hc, hr, rfl⟩)
    by_contra hn
    rw [if_neg hn] at hw
    omega
  · intro seen
    rw [if_pos seen] at hw
    obtain ⟨id, hid⟩ := List.exists_mem_of_length_pos (Nat.lt_of_lt_of_eq Nat.zero_lt_one hw.symm)
    obtain ⟨c, hc, hr, -⟩ := mem_awaitingOf.1 hid
    exact ⟨c, hc, hr⟩

/-- Once the key is up and the interval has passed, no first tap is seen any more. -/
theorem Reachable.first_over {x : Session} (hx : Reachable rules x) (h : Remembers rules d interval n)
    (up : d.key ∉ x.down) {instant : Nat} (fired : ∀ e ∈ x.state.timers, instant < e.1.instant)
    (past : ∀ u ∈ x.releases, u + interval.toNat ≤ instant) : lastTap n x.state.journal ≠ some .seen := by
  intro seen
  obtain ⟨c, hc, hr⟩ := (hx.remembered h).pending_iff.2 seen
  cases hd : c.deadline with
  | none =>
    obtain ⟨p, hp, he⟩ := List.mem_map.1 ((hx.orderly.resting_iff c hc).1 hd)
    have hpr := hx.orderly.rule_eq c hc p hp he
    rw [hr] at hpr
    have hk := hx.held_key hp hpr h.first rfl
    have held : d.key ∈ x.state.heldLists.flatten := List.mem_flatten.2 ⟨p.held, List.mem_map_of_mem hp, hk⟩
    exact up (hx.tracked.owned.mem_iff.1 (List.mem_append_left _ (List.mem_append_left _ held)))
  | some e =>
    obtain ⟨u, hu, m, l, hm, hl, he⟩ := hx.due c hc e hd
    rw [hr] at hm
    obtain rfl := Option.some.inj (hm.symm.trans h.first)
    obtain rfl := Option.some.inj hl
    have runs : (e, Timer.countdown c) ∈ x.state.timers :=
      List.mem_append_left _ (List.mem_filterMap.2 ⟨c, hc, by rw [hd]; rfl⟩)
    have later : instant < e.instant := fired _ runs
    have passed : u + interval.toNat ≤ instant := past u hu
    have due : e.instant ≤ u + interval.toNat := by
      rw [he]
      exact Nat.min_le_left _ _
    omega

theorem Remembers.fires_kept (h : Remembers rules d interval n) :
    Kept rules fun before l => ∀ press keys instant flags, l = .dispatched press keys (some n) instant flags →
      lastTap n before = some .seen ∨ lastTap n before = some .dropped where
  aside before l hl press keys instant flags he := by
    rw [he] at hl
    cases hl.1
  opening _ _ _ press keys instant flags he := by cases he
  alone {x k instant later simultaneous} hx _ _ press keys instant' flags he := by
    injection he with _ _ found _ _
    obtain ⟨m, hm, gates⟩ := findRule_open found
    obtain rfl := Option.some.inj (hm.symm.trans h.second)
    have set : x.state.flag d.flagInUse = true := by
      simpa [DoubleTap.second, Gate.isOpen, Gate.whenSet, State.flag] using gates
    rw [State.bare, lastTap_bare]
    exact (hx.remembered h).shown.1 set
  joined {x b i lines} hx held first _ press keys instant flags he := by
    injection he with _ _ rule _ _
    obtain rfl := Option.some.inj rule
    have together := hx.finish_together held first
    rw [h.not_together (.inl rfl)] at together
    cases together

/-! ## What drops a countdown -/

/-- A press of another rule had the key while the first tap was remembered. -/
def Overruled (d : DoubleTap) (n : Nat) (journal : List Incident) : Prop :=
  ∃ before press keys rule instant flags after, journal = before ++ .dispatched press keys rule instant flags :: after ∧
    lastTap n before = some .seen ∧ d.key ∈ keys ∧ rule ≠ some n ∧ rule ≠ some (n + 1)

theorem Overruled.append {journal : List Incident} (h : Overruled d n journal) (more : List Incident) :
    Overruled d n (journal ++ more) := by
  obtain ⟨before, press, keys, rule, instant, flags, after, rfl, rest⟩ := h
  exact ⟨before, press, keys, rule, instant, flags, after ++ more, by simp, rest⟩

theorem Overruled.of_bare {journal : List Incident} (h : Overruled d n (journal.filter fun i => !i.isSending)) :
    Overruled d n journal := by
  obtain ⟨before, press, keys, rule, instant, flags, after, he, seen, rest⟩ := h
  obtain ⟨front, back, rfl, rfl, hb⟩ := List.filter_eq_append_iff.1 he
  obtain ⟨quiet, later, rfl, hq, -, -⟩ := List.filter_eq_cons_iff.1 hb
  refine ⟨front ++ quiet, press, keys, rule, instant, flags, later, by simp, ?_, rest⟩
  rw [lastTap_quiet front fun l hl => tapStep_of_sending l (by simpa using hq l hl), ← lastTap_bare front]
  exact seen

theorem overruled_lines {s t : State} (hs : lastTap n s.journal = some .dropped → Overruled d n s.bare.journal)
    {lines : List Incident} (journal : t.bare.journal = s.bare.journal ++ lines)
    (kept : .dropped ∉ tapSteps n lines) (ht : lastTap n t.journal = some .dropped) : Overruled d n t.bare.journal := by
  rw [lastTap_lines journal] at ht
  rw [journal]
  cases hl : lastTap n lines with
  | none =>
    rw [hl, Option.none_or] at ht
    exact (hs ht).append lines
  | some step =>
    rw [hl, Option.some_or] at ht
    obtain rfl := Option.some.inj ht
    exact absurd (List.mem_of_getLast? hl) kept

theorem overruled_noteAll {s : State} (hs : lastTap n s.journal = some .dropped → Overruled d n s.bare.journal)
    {lines : List Incident} (plain : ∀ l ∈ lines, l.isSending = false ∧ l.tapStep? n = none)
    (ht : lastTap n (s.noteAll lines).journal = some .dropped) : Overruled d n (s.noteAll lines).bare.journal := by
  have hj : (s.noteAll lines).bare.journal = s.bare.journal ++ lines := by
    rw [State.bare_noteAll fun l hl => (plain l hl).1]
    rfl
  refine overruled_lines hs hj ?_ ht
  rw [tapSteps_eq_nil fun l hl => (plain l hl).2]
  exact List.not_mem_nil

theorem overruled_note {s : State} (hs : lastTap n s.journal = some .dropped → Overruled d n s.bare.journal)
    {l : Incident} (plain : l.isSending = false) (quiet : l.tapStep? n = none)
    (ht : lastTap n (s.note l).journal = some .dropped) : Overruled d n (s.note l).bare.journal :=
  have all : ∀ j ∈ [l], j.isSending = false ∧ j.tapStep? n = none := fun j hj => by
    rw [List.mem_singleton.1 hj]
    exact ⟨plain, quiet⟩
  overruled_noteAll hs all ht

theorem Remembers.overruled_dispatch (h : Remembers rules d interval n) {s : State} (remembered : Remembered d n s)
    (fitting : Fitting rules s) (hs : lastTap n s.journal = some .dropped → Overruled d n s.bare.journal)
    (keys : List Key) (rule : Option Nat) (instant : Nat)
    (ht : lastTap n (dispatch rules keys rule instant s).journal = some .dropped) :
    Overruled d n (dispatch rules keys rule instant s).bare.journal := by
  have hj := dispatch_journal rules keys rule instant s
  have steps := h.tapSteps_dispatch keys rule instant s
  obtain ⟨step, hr, hne⟩ | ⟨hr, not_second, not_first⟩ := TapStep.ofRule_cases n rule
  · rw [hr] at steps
    rw [lastTap_of_step hj steps] at ht
    exact absurd (Option.some.inj ht) hne
  rw [hr, List.append_nil] at steps
  by_cases hd : .dropped ∈ tapSteps n (dispatchLines rules keys rule instant s)
  · -- a countdown of the first press shares a key with the new press, which is the key of the pattern
    rw [steps] at hd
    obtain ⟨c, hc, he⟩ := List.mem_map.1 hd
    obtain ⟨hc, hr⟩ := List.mem_filter.1 hc
    have hc := (List.mem_filter.1 hc).1
    have hr := eq_of_beq hr
    have own : c.owners.any (· ∈ keys) = true := by
      by_contra hn
      rw [TapStep.ofEnding, if_neg hn] at he
      cases he
    obtain ⟨k, hk, hkeys⟩ := List.any_eq_true.1 own
    have hk := fitting.pending c hc (n + 1) _ d.key true (congrArg some hr) h.first rfl hk
    rw [List.mem_singleton.1 hk, decide_eq_true_eq] at hkeys
    have seen := remembered.pending_iff.1 ⟨c, hc, hr⟩
    rw [← lastTap_bare] at seen
    rw [hj, dispatchLines]
    exact ⟨_, _, keys, rule, instant, s.flags, _, rfl, seen, hkeys, not_second, not_first⟩
  · exact overruled_lines hs hj hd ht

/-- A drop came from a press of another rule. -/
theorem Reachable.overruled {x : Session} (hx : Reachable rules x) (h : Remembers rules d interval n)
    (last : lastTap n x.state.journal = some .dropped) : Overruled d n x.state.bare.journal := by
  induction hx with
  | start => cases last
  | @move x y hx step ih =>
    cases step with
    | @fire e timer first =>
      refine overruled_lines ih (fire_journal rules _ _ _) (fun hd => ?_) last
      cases timer with
      | countdown p =>
        rw [tapSteps_fire_countdown] at hd
        split at hd
        · cases List.mem_singleton.1 hd
        · cases hd
      | hold p =>
        rw [tapSteps_fire_hold] at hd
        cases hd
    | dispatch simultaneous free oldest once single =>
      exact h.overruled_dispatch (hx.remembered h) hx.fitting ih _ _ _ last
    | holdBack free oldest found together =>
      exact overruled_lines ih (startBuffer_journal _ _ _) (List.not_mem_nil) last
    | join held oldest narrowed some_left => exact ih last
    | close held due => exact overruled_note ih rfl rfl last
    | @finish b i held idle first ready =>
      simp only [finish_eq] at last ⊢
      refine h.overruled_dispatch ((hx.remembered h).handOver b i) (hx.fitting.handOver b i) ?_ _ _ _ last
      obtain ⟨lines, hs, hl⟩ := handOver_eq rules b i x.state
      rw [hs]
      refine overruled_noteAll ih fun l hm => ?_
      obtain ⟨t, rfl⟩ := hl l hm
      exact ⟨rfl, rfl⟩
    | @flush b held => exact overruled_note (s := { x.state with buffer := none }) ih rfl rfl last
  | @tick x _ _ instant ih =>
    obtain ⟨more, ht, hl⟩ := x.state.tick_eq instant
    rw [ht] at last ⊢
    refine overruled_noteAll (s := { x.state with now := max x.state.now instant }) ih (fun l hm => ?_) last
    obtain ⟨t, m, rfl⟩ := hl l hm
    exact ⟨rfl, rfl⟩
  | accept _ _ _ ih => exact overruled_note ih rfl rfl last
  | refuse _ _ _ ih => exact overruled_note ih rfl rfl last
  | release hx _ _ ih =>
    refine overruled_lines ih (release_journal rules _ _ _) ?_ last
    rw [tapSteps_release]
    exact List.not_mem_nil
  | take _ _ ih => exact ih last

end

end KeyRules.Engine
