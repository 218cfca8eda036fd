import KeyRules.Proofs.ChordOrder
import KeyRules.Proofs.Engine.Slices

/-!
# Runs that start later

The engine only counts the time between events: a run in which everything happens later by the same time sends, arms
and sets the same (`delayed_run_same`), as long as no deadline runs into the end of the clock. Its state is that of the
other run, told so much later (`Lags`).
-/

namespace KeyRules.Engine

def Input.later (delay : Nat) : Input → Input
  | .down k instant => .down k (instant + delay)
  | .up k instant => .up k (instant + delay)
  | .advance instant => .advance (instant + delay)
  | .take => .take

theorem Input.later_instant {i : Input} {instant : Nat} (timed : i.instant? = some instant) (delay : Nat) :
    (i.later delay).instant? = some (instant + delay) := by
  cases i <;> cases timed <;> rfl

theorem Input.untimed {i : Input} (untimed : i.instant? = none) : i = .take := by
  cases i with
  | take => rfl
  | down k instant | up k instant | advance instant => cases untimed

section
variable {rules : List Manipulator}

theorem handle_later (delay : Nat) (s : State) (i : Input) : handle rules s (i.later delay) = handle rules s i := by
  cases i <;> rfl

/-! ## Keys that went down in the past -/

/-- Keys that wait or are held back went down by now. -/
structure Past (now : Nat) (x : Session) : Prop where
  waiting : ∀ k ∈ x.waiting, k.2 ≤ now
  buffered : ∀ b, x.state.buffer = some b → ∀ k ∈ b.keys, k.2 ≤ now

theorem Past.mono {now later : Nat} {x : Session} (h : Past now x) (past : now ≤ later) : Past later x :=
  ⟨fun k hk => Nat.le_trans (h.waiting k hk) past, fun b hb k hk => Nat.le_trans (h.buffered b hb k hk) past⟩

theorem Past.move {now : Nat} {x y : Session} (h : Past now x) (m : Move rules x y) : Past now y := by
  have none_held : ∀ {s : State}, s.buffer = none → ∀ b, s.buffer = some b → ∀ k ∈ b.keys, k.2 ≤ now := by
    intro s free b hb
    rw [free] at hb
    cases hb
  cases m with
  | fire first => exact ⟨h.waiting, fun b hb => h.buffered b ((fire_frame rules _ _ _).1.symm.trans hb)⟩
  | dispatch simultaneous free oldest fresh single =>
    refine ⟨fun k hk => h.waiting k (oldest ▸ List.mem_cons_of_mem _ hk), ?_⟩
    exact none_held ((dispatch_frame rules _ _ _ _).1.trans free)
  | @holdBack k instant i free oldest found together =>
    refine ⟨fun _ hk => (nomatch hk), fun b hb j hj => ?_⟩
    obtain rfl := Option.some.inj hb
    rw [List.mem_singleton.1 hj]
    exact h.waiting (k, instant) (oldest ▸ List.mem_singleton_self _)
  | @join b k instant candidates held oldest narrowed some_left =>
    refine ⟨fun _ hk => (nomatch hk), fun c hc j hj => ?_⟩
    obtain rfl := Option.some.inj hc
    rcases List.mem_append.1 hj with hj | hj
    · exact h.buffered b held j hj
    · rw [List.mem_singleton.1 hj]
      exact h.waiting (k, instant) (oldest ▸ List.mem_singleton_self _)
  | close held due => exact ⟨h.waiting, h.buffered⟩
  | finish held idle first ready => exact ⟨h.waiting, none_held (finish_frame rules _ _ _).1⟩
  | @flush b held =>
    refine ⟨fun k hk => ?_, none_held rfl⟩
    exact (List.mem_append.1 hk).elim (h.buffered b held k) (h.waiting k)

theorem Reachable.past {x : Session} (hx : Reachable rules x) : Past x.state.now x := by
  induction hx with
  | start => exact ⟨fun _ hk => (nomatch hk), fun _ hb => (nomatch hb)⟩
  | move _ m ih =>
    rw [m.now]
    exact ih.move m
  | @tick x _ _ instant ih =>
    have later : x.state.now ≤ (x.state.tick instant).now := by
      rw [State.tick_clock]
      exact Nat.le_max_left _ _
    have same := State.tick_buffer x.state instant
    exact ⟨(ih.mono later).waiting, fun b hb => (ih.mono later).buffered b (same.symm.trans hb)⟩
  | accept _ _ _ ih =>
    exact ⟨fun k hk => Nat.le_of_eq (congrArg Prod.snd (List.mem_singleton.1 hk)), ih.buffered⟩
  | refuse _ _ _ ih => exact ⟨ih.waiting, ih.buffered⟩
  | @release x _ _ k _ ih =>
    obtain ⟨buffer, now⟩ := release_frame rules k x.state.now x.state
    rw [now]
    exact ⟨ih.waiting, fun b hb => ih.buffered b (buffer.symm.trans hb)⟩
  | take _ _ ih => exact ⟨ih.waiting, ih.buffered⟩

/-- The clock has room for everything that may be set by now. -/
theorem Reachable.holdsMovable {x : Session} (hx : Reachable rules x) {delay : Nat}
    (room : x.state.now + delay + UInt32.size ≤ UInt64.size) : x.state.HoldsMovable delay := by
  intro b hb k hk
  have past := hx.past.buffered b hb k hk
  exact movable_of_room (by omega)

/-! ## A run behind another -/

/-- The second state is the first one told so much later. At the start no event has set the clock of either. -/
structure Lags (delay : Nat) (s t : State) : Prop where
  told : ∀ now, t.recast [] now = s.told ⟨delay, [], now⟩
  clock : ∀ instant, max t.now (instant + delay) = max s.now instant + delay

theorem lags_start (delay : Nat) : Lags delay {} {} where
  told _ := rfl
  clock instant := by simp

/-- An event finds the timers fired that were due by then. -/
theorem Lags.advanceTo {delay instant : Nat} {x y : Session} (h : Lags delay x.state y.state) (hx : Reachable rules x)
    (idle : x.waiting = []) (hy : Reachable rules y) (idle' : y.waiting = [])
    (room : max x.state.now instant + delay + UInt32.size ≤ UInt64.size) (now : Nat) :
    (Engine.advanceTo rules (instant + delay) y.state).recast [] now =
      (Engine.advanceTo rules instant x.state).told ⟨delay, [], now⟩ := by
  have ticked := hx.tick idle instant
  have clock := State.tick_clock x.state instant
  have held : (x.state.tick instant).HoldsMovable delay := ticked.holdsMovable (clock.symm ▸ room)
  rw [hy.recast_advanceTo idle', h.told now, h.clock]
  unfold Engine.advanceTo
  simp only
  rw [told_fireDue rules ticked.tracked.opened held, State.told_tick, clock]

theorem Lags.step {delay : Nat} {x y : Session} (h : Lags delay x.state y.state) (hx : Reachable rules x)
    (idle : x.waiting = []) (hy : Reachable rules y) (idle' : y.waiting = []) (i : Input)
    (room : ∀ instant, i.instant? = some instant → max x.state.now instant + delay + UInt32.size ≤ UInt64.size) :
    Lags delay (Engine.step rules x.state i) (Engine.step rules y.state (i.later delay)) := by
  cases ht : i.instant? with
  | none =>
    obtain rfl := Input.untimed ht
    exact ⟨fun now => congrArg (fun s : State => ({ s with output := [] } : State)) (h.told now), h.clock⟩
  | some instant =>
    have room := room instant ht
    have advanced := h.advanceTo hx idle hy idle' room
    have reached := hx.advanceTo idle instant
    have now : (Engine.advanceTo rules instant x.state).now = max x.state.now instant := advanceTo_clock instant x.state
    have now' : (Engine.advanceTo rules (instant + delay) y.state).now = max x.state.now instant + delay :=
      (advanceTo_clock _ y.state).trans (h.clock instant)
    rw [step_timed ht, step_timed (Input.later_instant ht delay), handle_later]
    refine ⟨fun other => ?_, fun later => ?_⟩
    · -- at the time of the event both handle it alike, and any other time is told afterwards
      have handled : (handle rules (Engine.advanceTo rules (instant + delay) y.state) i).recast []
          (Engine.advanceTo rules (instant + delay) y.state).now =
          (handle rules (Engine.advanceTo rules instant x.state) i).told
            ⟨delay, [], (Engine.advanceTo rules instant x.state).now + delay⟩ := by
        rw [recast_handle, advanced, now', ← now]
        exact (told_handle (reached.holdsMovable (now.symm ▸ room)) (movable_of_room (now.symm ▸ room)) rfl i).symm
      have retold := congrArg (State.recast · [] other) handled
      simpa only [State.recast_recast, State.recast_told, List.append_nil] using retold
    · rw [handle_now, handle_now, now, now']
      omega

/-! ## Runs -/

theorem step_now (s : State) (i : Input) : (step rules s i).now = max s.now (i.instant?.getD 0) := by
  cases ht : i.instant? with
  | none =>
    obtain rfl := Input.untimed ht
    exact (Nat.max_zero s.now).symm
  | some instant => rw [step_timed ht, handle_now, advanceTo_clock, Option.getD_some]

variable (rules) in
theorem run_now (inputs : List Input) :
    (run rules inputs).now = 0 ∨ ∃ i ∈ inputs, i.instant? = some (run rules inputs).now := by
  induction inputs using List.reverseRecOn with
  | nil => exact .inl rfl
  | append_singleton inputs i ih =>
    rw [run_append, step_now]
    rcases Nat.le_total (i.instant?.getD 0) (run rules inputs).now with before | after
    · rw [Nat.max_eq_left before]
      exact ih.imp_right fun ⟨j, hj, instant⟩ => ⟨j, List.mem_append_left _ hj, instant⟩
    · rw [Nat.max_eq_right after]
      cases ht : i.instant? with
      | none => exact .inl rfl
      | some instant => exact .inr ⟨i, List.mem_append_right _ (List.mem_singleton_self i), ht⟩

theorem lags_run {delay : Nat} (inputs : List Input)
    (room : ∀ i ∈ inputs, ∀ instant, i.instant? = some instant → instant + delay + UInt32.size ≤ UInt64.size) :
    Lags delay (run rules inputs) (run rules (inputs.map (Input.later delay))) := by
  induction inputs using List.reverseRecOn with
  | nil => exact lags_start delay
  | append_singleton inputs i ih =>
    obtain ⟨hx, idle⟩ := reachable_session rules inputs
    obtain ⟨hy, idle'⟩ := reachable_session rules (inputs.map (Input.later delay))
    have earlier : ∀ j ∈ inputs, ∀ instant, j.instant? = some instant → instant + delay + UInt32.size ≤ UInt64.size :=
      fun j hj => room j (List.mem_append_left _ hj)
    have lag := ih earlier
    rw [← session_state, ← session_state] at lag
    have stepped := lag.step hx idle hy idle' i fun instant timed => by
      have fresh := room i (List.mem_append_right _ (List.mem_singleton_self i)) instant timed
      rw [session_state]
      rcases run_now rules inputs with zero | ⟨j, hj, timed'⟩
      · omega
      · have := earlier j hj _ timed'
        omega
    rw [session_state, session_state] at stepped
    rwa [List.map_append, List.map_singleton, run_append, run_append]

/-- Let every event of a run come later by the same time, with no deadline beyond the end of the clock. Then after
every event the same was sent, the same keys are armed and the same flags are set. -/
theorem delayed_run_same (rules : List Manipulator) (inputs : List Input) (delay : Nat)
    (room : ∀ i ∈ inputs, ∀ instant, i.instant? = some instant → instant + delay + UInt32.size < UInt64.size) :
    ∀ done, done <+: inputs →
      (run rules (done.map (Input.later delay))).output = (run rules done).output ∧
        (run rules (done.map (Input.later delay))).armed = (run rules done).armed ∧
        (run rules (done.map (Input.later delay))).flags = (run rules done).flags := by
  intro done before
  have lag : Lags delay (run rules done) (run rules (done.map (Input.later delay))) :=
    lags_run done fun i hi instant timed => Nat.le_of_lt (room i (before.subset hi) instant timed)
  have output := congrArg State.output (lag.told 0)
  have armed := congrArg State.armed (lag.told 0)
  have flags := congrArg State.flags (lag.told 0)
  exact ⟨output, armed, flags⟩

end

/-- A key of the chord is let go while the home-row key is down, with an instant before the clock. Then the home-row key
is held over another key. -/
def lateRelease : List Input := [
  .down keyC 190, .down keyA 250, .up keyC 240, .advance 460, .down keyB 470, .up keyB 480, .up keyA 490]

/-- So much later a run comes close to the end of the clock. -/
def nearTheEnd : Nat := UInt64.size - 2 * UInt32.size

/-- Close to the end of the clock the late event counts as it does at the start, and the hold is sent as well. -/
theorem delayed_run_same_late :
    (∀ i ∈ lateRelease, ∀ instant, i.instant? = some instant →
      instant + nearTheEnd + UInt32.size < UInt64.size) ∧
      (run besideHomeRow (lateRelease.map (Input.later nearTheEnd))).output =
        (run besideHomeRow lateRelease).output ∧
      (run besideHomeRow lateRelease).output.length = 10 := by
  have room : ∀ i ∈ lateRelease, ∀ instant, i.instant? = some instant →
      instant + nearTheEnd + UInt32.size < UInt64.size := by
    simp [lateRelease, Input.instant?, nearTheEnd, UInt32.size, UInt64.size]
  refine ⟨room, (delayed_run_same besideHomeRow lateRelease _ room lateRelease (List.prefix_refl _)).1, ?_⟩
  decide +kernel

end KeyRules.Engine
