import KeyRules.Proofs.Engine.Calm
import KeyRules.Proofs.Engine.Outcomes

/-!
# One press alone

From a state with nothing in flight one press of a rule goes through its stages. It begins with a delayed action that
rests (`Idle.begins`), it is held when its hold timer runs out (`Lone.holds`), and at its end it is tapped or not
(`Lone.release_tapped`, `Lone.release_untapped`).
-/

namespace KeyRules.Engine

/-- From one state to a later one, rule `i` sent its tap for some presses and its hold for others. -/
structure Sends (i : Nat) (s t : State) (tapped held : List Nat) : Prop where
  taps : taps i t.journal = Engine.taps i s.journal ++ tapped
  holds : holds i t.journal = Engine.holds i s.journal ++ held

theorem sends_of_sending (i : Nat) (stages : Stage → Bool) (l : Incident) (hl : l.isSending = true) :
    l.sends? i stages = none := by
  cases l <;> first | rfl | cases hl

section
variable {rules : List Manipulator} {i : Nat} {s t u : State}

theorem Sends.trans {tapped held tapped' held' : List Nat} (h : Sends i s t tapped held)
    (h' : Sends i t u tapped' held') : Sends i s u (tapped ++ tapped') (held ++ held') where
  taps := by rw [h'.taps, h.taps, List.append_assoc]
  holds := by rw [h'.holds, h.holds, List.append_assoc]

theorem sends_same (h : t.journal = s.journal) : Sends i s t [] [] := by
  constructor <;> rw [h, List.append_nil]

def Incident.isEmitted : Incident → Bool
  | emitted _ _ _ => true
  | _ => false

theorem sends_line {l : Incident} (h : t.journal = s.journal ++ [l]) (hl : l.isEmitted = false) :
    Sends i s t [] [] := by
  have hn : ∀ stages, l.sends? i stages = none := by
    intro stages
    cases l <;> first | rfl | cases hl
  constructor <;> simp [taps, holds, h, hn]

theorem sends_stage {more : List Incident} {press : Nat} {stage : Stage}
    (h : t.bare.journal = s.bare.journal ++ (more ++ [.emitted press i stage]))
    (quiet : ∀ l ∈ more, l.isEmitted = false) :
    Sends i s t (if stage.isTapping then [press] else []) (if stage = .hold then [press] else []) := by
  have hm : ∀ stages, more.filterMap (Incident.sends? i stages) = [] := by
    refine fun stages => List.filterMap_eq_nil_iff.2 fun l hl => ?_
    have hq := quiet l hl
    cases l <;> first | rfl | cases hq
  constructor
  · refine (filterMap_lines (sends_of_sending i _) h).trans (congrArg (taps i s.journal ++ ·) ?_)
    rw [List.filterMap_append, hm]
    cases stage <;> simp [Incident.sends?, Stage.isTapping]
  · refine (filterMap_lines (sends_of_sending i _) h).trans (congrArg (holds i s.journal ++ ·) ?_)
    rw [List.filterMap_append, hm]
    cases stage <;> simp [Incident.sends?]

theorem sends_tick (instant : Nat) : Sends i s (s.tick instant) [] [] := by
  unfold State.tick
  split
  · exact sends_line rfl rfl
  · exact sends_same rfl

/-! ## Nothing in flight -/

structure Idle (s : State) : Prop where
  presses : s.presses = []
  pending : s.pending = []
  free : s.buffer = none

theorem Idle.calm (h : Idle s) : s.timers = [] := by
  rw [State.timers, h.presses, h.pending]
  rfl

theorem Idle.tick (h : Idle s) (instant : Nat) : Idle (s.tick instant) where
  presses := (s.tick_presses instant).trans h.presses
  pending := (s.tick_pending instant).trans h.pending
  free := (s.tick_buffer instant).trans h.free

theorem Idle.note (h : Idle s) (l : Incident) : Idle (s.note l) := ⟨h.presses, h.pending, h.free⟩

theorem Idle.advances (h : Idle s) {instant : Nat} (later : s.now ≤ instant) :
    advanceTo rules instant s = s.tick instant :=
  advanceTo_quiet h.calm later fun b hb => by
    rw [h.free] at hb
    cases hb

/-! ## One timer -/

theorem settle_due {d : Deadline} {timer : Timer} (h : s.timers = [(d, timer)]) {isDue : Deadline → Bool}
    (due : isDue d = true) : settle rules isDue s = fire rules s d timer := by
  have he : earliest s.timers = some (d, timer) := by rw [h]; rfl
  unfold settle
  rw [h]
  show fireWhile rules isDue 1 s = _
  unfold fireWhile
  rw [he]
  simp only [due, if_true, fireWhile]

theorem settle_early {d : Deadline} {timer : Timer} (h : s.timers = [(d, timer)]) {isDue : Deadline → Bool}
    (early : isDue d = false) : settle rules isDue s = s := by
  have he : earliest s.timers = some (d, timer) := by rw [h]; rfl
  unfold settle
  rw [h]
  show fireWhile rules isDue 1 s = _
  unfold fireWhile
  rw [he]
  simp only [early, Bool.false_eq_true, if_false]

/-! ## One press -/

/-- One press is in flight, known up to what it sent, with these delayed actions. -/
structure Lone (s : State) (p : Press) (ds : List Pending) : Prop where
  presses : s.bare.presses = [p]
  pending : s.pending = ds
  free : s.buffer = none

theorem Lone.tick {p : Press} {ds : List Pending} (h : Lone s p ds) (instant : Nat) : Lone (s.tick instant) p ds where
  presses := by
    rw [State.bare_presses, State.tick_presses]
    exact h.presses
  pending := (s.tick_pending instant).trans h.pending
  free := (s.tick_buffer instant).trans h.free

theorem Lone.press {p : Press} {ds : List Pending} (h : Lone s p ds) : ∃ q, s.presses = [q] ∧ q.bare = p :=
  List.map_eq_singleton_iff.1 h.presses

/-- Only the hold timer of the press runs while its delayed action rests. -/
theorem Lone.timers {p : Press} {d : Pending} (h : Lone s p [d]) (rests : d.deadline = none) {e : Deadline}
    (timer : p.holdTimer = some e) : ∃ q, q.bare = p ∧ s.timers = [(e, .hold q)] := by
  obtain ⟨q, hq, rfl⟩ := h.press
  have ht : q.holdTimer = some e := timer
  refine ⟨q, rfl, ?_⟩
  simp [State.timers, hq, h.pending, rests, ht]

/-- A press that begins while nothing else is in flight. -/
theorem Idle.begins (h : Idle s) {m : Manipulator} (placed : rules[i]? = some m)
    (delayed : m.delayed.isSome = true) (keys : List Key) (instant : Nat) :
    Lone (dispatch rules keys (some i) instant s) (begun (s.serial + 1) keys i instant m)
        [{ press := s.serial + 1, owners := keys, rule := i }] ∧
      Sends i s (dispatch rules keys (some i) instant s) [] [] := by
  have he := bare_dispatch_rule rules keys placed instant s
  refine ⟨⟨?_, ?_, (dispatch_frame rules _ _ _ _).1.trans h.free⟩, ?_⟩
  · rw [he, State.bare_presses, h.presses]
    rfl
  · rw [← State.bare_pending, he]
    simp only [State.resting, h.pending, List.filter_nil, List.nil_append, awaited, delayed, if_true]
  · have hj : (dispatch rules keys (some i) instant s).bare.journal = s.bare.journal ++
        ([.dispatched (s.serial + 1) keys (some i) instant s.flags] ++ [.emitted (s.serial + 1) i .press]) := by
      rw [he]
      simp [State.running, h.pending]
    exact sends_stage hj (by simp [Incident.isEmitted])

/-- The hold timer of the press runs out: its hold is sent, which ends the delayed action. -/
theorem Lone.holds {p : Press} {d : Pending} (h : Lone s p [d]) (own : d.press = p.id) (rests : d.deadline = none)
    (rule : p.rule = some i) (halting : halts (eventsOf rules i (·.onHold)) = true) {e : Deadline}
    (timer : p.holdTimer = some e) {instant : Nat} (due : e.instant ≤ instant) :
    Lone (settleBy rules instant s) p.fired [] ∧ Sends i s (settleBy rules instant s) [] [p.id] := by
  obtain ⟨q, rfl, ht⟩ := h.timers rests timer
  have hs : settleBy rules instant s = fire rules s e (.hold q) := settle_due ht (decide_eq_true due)
  have hr : q.rule = some i := rule
  have he : (fire rules s e (.hold q)).bare =
      (((s.bare.note (.fired e)).updatePress q.id Press.fired).note (.emitted q.id i .hold)).forgetPending q.id := by
    rw [fire, bare_fireHold rules _ hr, if_pos halting, State.bare_note rfl]
  rw [hs]
  refine ⟨⟨?_, ?_, (fire_frame rules _ _ _).1.trans h.free⟩, ?_⟩
  · rw [he]
    show (s.bare.presses.map fun p => if p.id = q.id then p.fired else p) = [q.bare.fired]
    rw [h.presses]
    simp
  · rw [← State.bare_pending, he]
    show s.pending.filter (fun d => d.press != q.id) = []
    rw [h.pending]
    have own : d.press = q.id := own
    simp [own]
  · have hj : (fire rules s e (.hold q)).bare.journal =
        s.bare.journal ++ ([.fired e] ++ [.emitted q.id i .hold]) := by
      rw [he]
      simp [State.note, State.updatePress, State.forgetPending]
    exact sends_stage hj (by simp [Incident.isEmitted])

theorem Lone.waits {p : Press} {d : Pending} (h : Lone s p [d]) (rests : d.deadline = none) {e : Deadline}
    (timer : p.holdTimer = some e) {instant : Nat} (early : instant < e.instant) :
    settleBy rules instant s = s := by
  obtain ⟨q, -, ht⟩ := h.timers rests timer
  exact settle_early ht (decide_eq_false (Nat.not_le.2 early))

/-! ## The end of the press -/

theorem Lone.release {p : Press} {ds : List Pending} (h : Lone s p ds) {k : Key} (own : p.held = [k])
    (rule : p.rule = some i) {m : Manipulator} (placed : rules[i]? = some m) (instant : Nat) :
    (release rules k instant s).bare =
      settled p i m instant (({ s.bare with presses := [] } : State).note (.released p.id)) := by
  obtain ⟨q, hq, rfl⟩ := h.press
  have hk : q.held = [k] := own
  have hh : s.holder? k = some q := by
    unfold State.holder?
    rw [hq]
    simp [hk]
  have hd : s.bare.drop q.id = { s.bare with presses := [] } := by
    simp [State.drop, hq]
  rw [bare_release rules hh, hk, if_pos (by simp), bare_endPress_rule rules (p := q) rule placed, hd]
  rfl

/-- A tap that halts ends everything. -/
theorem Lone.release_tapped {p : Press} {d : Pending} (h : Lone s p [d]) {k : Key} (own : p.held = [k])
    (rule : p.rule = some i) {m : Manipulator} (placed : rules[i]? = some m) {instant : Nat}
    (tap : isTap m p instant = true) (halting : halts m.onTap = true) (waits : d.press = p.id) :
    Idle (Engine.release rules k instant s) ∧ Sends i s (Engine.release rules k instant s) [p.id] [] := by
  have he := h.release own rule placed instant
  unfold settled at he
  rw [tap, halting] at he
  simp only [if_true, Bool.and_self] at he
  refine ⟨⟨?_, ?_, (release_frame rules _ _ _).1.trans h.free⟩, ?_⟩
  · exact List.map_eq_nil_iff.1 (congrArg State.presses he)
  · rw [← State.bare_pending, he]
    show s.pending.filter (fun d => d.press != p.id) = []
    rw [h.pending]
    simp [waits]
  · have hj : (Engine.release rules k instant s).bare.journal =
        s.bare.journal ++ ([.released p.id] ++ [.emitted p.id i .tap]) := by
      rw [he]
      simp [State.note, State.forgetPending]
    exact sends_stage hj (by simp [Incident.isEmitted])

/-- Without a tap the countdown of the delayed action starts. -/
theorem Lone.release_untapped {p : Press} {ds : List Pending} (h : Lone s p ds) {k : Key} (own : p.held = [k])
    (rule : p.rule = some i) {m : Manipulator} (placed : rules[i]? = some m) {instant : Nat}
    (tap : isTap m p instant = false) :
    (Engine.release rules k instant s).presses = [] ∧
    (Engine.release rules k instant s).pending = (startCountdown p.id m instant s).pending ∧
    (Engine.release rules k instant s).buffer = none ∧ Sends i s (Engine.release rules k instant s) [] [] := by
  have he := h.release own rule placed instant
  unfold settled at he
  rw [tap] at he
  simp only [Bool.false_and, Bool.false_eq_true, if_false] at he
  refine ⟨?_, ?_, (release_frame rules _ _ _).1.trans h.free, ?_⟩
  · refine List.map_eq_nil_iff.1 ((congrArg State.presses he).trans ?_)
    exact startCountdown_presses _ _ _ _
  · rw [← State.bare_pending, he]
    unfold startCountdown
    cases m.delayed <;> rfl
  · have hj : (Engine.release rules k instant s).bare.journal =
        s.bare.journal ++ ([.released p.id] ++ [.emitted p.id i .release]) := by
      rw [he]
      unfold startCountdown
      cases m.delayed <;> simp [State.note]
    exact sends_stage hj (by simp [Incident.isEmitted])

/-! ## The countdown -/

/-- A countdown that is due ends with the delayed tap. -/
theorem countdown_taps (presses : s.presses = []) {d : Pending} (pending : s.pending = [d]) (free : s.buffer = none)
    (rule : d.rule = i) {e : Deadline} (runs : d.deadline = some e) {instant : Nat} (due : e.instant ≤ instant)
    (later : s.now ≤ instant) : Sends i s (advanceTo rules instant s) [d.press] [] := by
  have hf : (s.tick instant).buffer = none := (s.tick_buffer instant).trans free
  have ht : (s.tick instant).timers = [(e, .countdown d)] := by
    simp [State.timers, presses, pending, runs]
  have ha : advanceTo rules instant s = fire rules (s.tick instant) e (.countdown d) := by
    unfold advanceTo fireDue
    simp only [hf]
    refine settle_due ht (decide_eq_true ?_)
    rw [State.tick_now later]
    exact due
  have hj : (fire rules (s.tick instant) e (.countdown d)).bare.journal =
      (s.tick instant).bare.journal ++ ([.fired e, .invoked i e.instant] ++ [.emitted d.press i .invoked]) := by
    rw [fire, bare_fireCountdown, State.bare_note rfl, rule]
    simp [State.note, State.forgetPending]
  rw [ha]
  refine (sends_tick instant).trans ?_
  exact sends_stage hj (by simp [Incident.isEmitted])

end

end KeyRules.Engine
