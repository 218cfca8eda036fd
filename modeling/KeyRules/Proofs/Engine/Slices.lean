import KeyRules.Proofs.Engine.Calm
import KeyRules.Proofs.Engine.Recast

/-!
# Slices of time

Time may pass in any number of steps. A stop on the way makes no difference: the timers that are left are those that
would have fired next (`Orderly.settle_settle`), and a window closes between the same two of them
(`Orderly.fireDue_fireDue`). So an advance in front of an event changes nothing that comes after it (`time_slices`).
-/

namespace KeyRules.Engine

section
variable {rules : List Manipulator}

/-! ## Rounds of timers -/

/-- Rounds beyond the number of timers do nothing. -/
theorem Orderly.fireWhile_rounds (isDue : Deadline → Bool) (n : Nat) :
    ∀ (m : Nat) {s : State}, Orderly rules s → s.ticking ≤ n → s.ticking ≤ m →
      fireWhile rules isDue n s = fireWhile rules isDue m s := by
  induction n with
  | zero =>
    intro m s _ hn _
    have hz : s.timers = [] := List.length_eq_zero_iff.1 (by have := s.timers_length; omega)
    exact (fireWhile_of_timers_nil hz isDue m).symm
  | succ n ih =>
    intro m s h hn hm
    cases m with
    | zero =>
      have hz : s.timers = [] := List.length_eq_zero_iff.1 (by have := s.timers_length; omega)
      exact fireWhile_of_timers_nil hz isDue (n + 1)
    | succ m =>
      simp only [fireWhile]
      split
      · rfl
      · rename_i d timer first
        have hf := h.ticking_fire first
        split
        · exact ih m (h.fire d timer) (by omega) (by omega)
        · rfl

theorem settle_of_early {isDue : Deadline → Bool} {s : State} {d : Deadline} {timer : Timer}
    (first : earliest s.timers = some (d, timer)) (early : isDue d = false) : settle rules isDue s = s := by
  unfold settle
  cases s.timers.length with
  | zero => rfl
  | succ n => simp [fireWhile, first, early]

/-- The first timer fires if it is due, and the others after it. -/
theorem Orderly.settle_of_due {isDue : Deadline → Bool} {s : State} (h : Orderly rules s) {d : Deadline} {timer : Timer}
    (first : earliest s.timers = some (d, timer)) (due : isDue d = true) :
    settle rules isDue s = settle rules isDue (Engine.fire rules s d timer) := by
  have hf := h.ticking_fire first
  have hs := s.timers_length
  have ht := (Engine.fire rules s d timer).timers_length
  unfold settle
  obtain ⟨n, hn⟩ : ∃ n, s.timers.length = n + 1 := ⟨s.timers.length - 1, by omega⟩
  rw [hn]
  simp only [fireWhile, first, due, if_true]
  exact fireWhile_rounds isDue n _ (h.fire d timer) (by omega) (by omega)

/-- Timers that fired early on would have been the first to fire later. -/
theorem Orderly.settle_settle {early late : Deadline → Bool} (wider : ∀ d, early d = true → late d = true) {s : State}
    (h : Orderly rules s) : settle rules late (settle rules early s) = settle rules late s := by
  induction hn : s.ticking using Nat.strongRecOn generalizing s with
  | ind n ih =>
    cases first : earliest s.timers with
    | none => rw [settle_of_timers_nil (earliest_none first) early]
    | some t =>
      obtain ⟨d, timer⟩ := t
      cases due : early d with
      | false => rw [settle_of_early first due]
      | true =>
        rw [h.settle_of_due first due, h.settle_of_due first (wider d due)]
        exact ih _ (hn ▸ h.ticking_fire first) (h.fire d timer) rfl

/-! ## Windows -/

theorem closeWindow_buffer {b : Buffer} {s : State} (held : s.buffer = some b) :
    (closeWindow rules b s).buffer = none := by
  unfold closeWindow
  simp only
  split
  · exact (finish_frame rules b _ _).1
  · exact (moves_flush rules (x := { state := s.note (.windowClosed b.deadline) }) held).2

theorem fireDue_free {s : State} (free : s.buffer = none) (instant : Nat) :
    fireDue rules instant s = settleBy rules instant s := by
  unfold fireDue
  rw [free]

theorem fireDue_open {s : State} {b : Buffer} (held : s.buffer = some b) {instant : Nat}
    (early : instant < b.deadline.instant) : fireDue rules instant s = settleBy rules instant s := by
  unfold fireDue
  rw [held]
  exact if_neg (Nat.not_le.2 early)

theorem fireDue_closes {s : State} {b : Buffer} (held : s.buffer = some b) {instant : Nat}
    (due : b.deadline.instant ≤ instant) :
    fireDue rules instant s =
      settleBy rules instant (closeWindow rules b (settle rules (fun d => !b.deadline.before d) s)) := by
  unfold fireDue
  rw [held]
  exact if_pos due

theorem Orderly.closes {s : State} (h : Orderly rules s) {b : Buffer} (held : s.buffer = some b)
    (due : b.deadline.instant ≤ s.now) :
    Orderly rules (closeWindow rules b (settle rules (fun d => !b.deadline.before d) s)) ∧
      (closeWindow rules b (settle rules (fun d => !b.deadline.before d) s)).buffer = none := by
  have hb := (settle_buffer rules (fun d => !b.deadline.before d) s).trans held
  have hn := settle_now rules (fun d => !b.deadline.before d) s
  have ho := h.moves (x := { state := s }) (moves_settle (fun d => !b.deadline.before d) { state := s })
  have hc := moves_closeWindow rules (x := { state := settle rules (fun d => !b.deadline.before d) s }) hb
    (hn.symm ▸ due) rfl
  exact ⟨ho.moves hc, closeWindow_buffer hb⟩

/-- What is due by an instant may fire in two goes. -/
theorem Orderly.fireDue_fireDue {s : State} (h : Orderly rules s) {first last : Nat} (early : first ≤ last)
    (past : last ≤ s.now) : fireDue rules last (fireDue rules first s) = fireDue rules last s := by
  have wider : ∀ d : Deadline, decide (d.instant ≤ first) = true → decide (d.instant ≤ last) = true := fun d hd =>
    decide_eq_true (Nat.le_trans (of_decide_eq_true hd) early)
  cases hb : s.buffer with
  | none =>
    have hf : (settleBy rules first s).buffer = none := (settle_buffer rules _ s).trans hb
    rw [fireDue_free hb, fireDue_free hf, fireDue_free hb]
    exact h.settle_settle wider
  | some b =>
    have hf : (settleBy rules first s).buffer = some b := (settle_buffer rules _ s).trans hb
    rcases Nat.lt_or_ge last b.deadline.instant with waits | closes
    · rw [fireDue_open hb (by omega), fireDue_open hf waits, fireDue_open hb waits]
      exact h.settle_settle wider
    rcases Nat.lt_or_ge first b.deadline.instant with waits | closed
    · -- no timer that fired in the first go comes after the window
      have before_window : ∀ d : Deadline, decide (d.instant ≤ first) = true → (!b.deadline.before d) = true := by
        intro d hd
        have hd : d.instant ≤ first := of_decide_eq_true hd
        have hlt : ¬b.deadline.instant < d.instant := by omega
        have hne : b.deadline.instant ≠ d.instant := by omega
        simp [Deadline.before, hlt, hne]
      rw [fireDue_open hb waits, fireDue_closes hf closes, fireDue_closes hb closes]
      exact congrArg (fun t => settleBy rules last (closeWindow rules b t)) (h.settle_settle before_window)
    · obtain ⟨ho, hn⟩ := h.closes hb (Nat.le_trans closes past)
      have hn := (settle_buffer rules (fun d => decide (d.instant ≤ first)) _).trans hn
      rw [fireDue_closes hb closed, fireDue_closes hb closes, settleBy, fireDue_free hn]
      exact ho.settle_settle wider

/-! ## Stops on the way -/

section
variable {x : Session} (hx : Reachable rules x) (idle : x.waiting = [])
include hx idle

theorem Reachable.recast_advanceTo (instant : Nat) (earlier : List Output) (now : Nat) :
    (Engine.advanceTo rules instant x.state).recast earlier now =
      fireDue rules (max x.state.now instant) (x.state.recast earlier now) := by
  unfold Engine.advanceTo
  simp only
  rw [recast_fireDue rules (hx.tick idle instant).tracked.opened, State.recast_tick, State.tick_clock]

/-- An advance that leads no further than the next one is lost in it. -/
theorem Reachable.advanceTo_advanceTo {first last : Nat} (early : first ≤ max x.state.now last)
    (earlier : List Output) :
    (Engine.advanceTo rules last (Engine.advanceTo rules first x.state)).recast earlier (max x.state.now last) =
      (Engine.advanceTo rules last x.state).recast earlier (max x.state.now last) := by
  have hm : max (Engine.advanceTo rules first x.state).now last = max x.state.now last := by
    rw [advanceTo_clock]
    omega
  have ho : Orderly rules (x.state.recast earlier (max x.state.now last)) := hx.orderly.congr rfl rfl rfl
  calc (Engine.advanceTo rules last (Engine.advanceTo rules first x.state)).recast earlier (max x.state.now last)
      = fireDue rules (max x.state.now last)
          ((Engine.advanceTo rules first x.state).recast earlier (max x.state.now last)) := by
        rw [(hx.advanceTo idle first).recast_advanceTo idle, hm]
    _ = fireDue rules (max x.state.now last) (fireDue rules (max x.state.now first)
          (x.state.recast earlier (max x.state.now last))) := by
        rw [hx.recast_advanceTo idle]
    _ = fireDue rules (max x.state.now last) (x.state.recast earlier (max x.state.now last)) :=
        ho.fireDue_fireDue (by omega) (Nat.le_refl _)
    _ = (Engine.advanceTo rules last x.state).recast earlier (max x.state.now last) :=
        (hx.recast_advanceTo idle last earlier _).symm

end

/-! ## Events -/

/-- The instant that an event comes with. -/
def Input.instant? : Input → Option Nat
  | .down _ instant | .up _ instant | .advance instant => some instant
  | .take => none

variable (rules) in
/-- What an event does once the timers that are due have fired. -/
def handle (s : State) : Input → State
  | .down k _ => if s.isDown k then s.note (.repeatedDown k) else accept rules k s
  | .up k _ => release rules k s.now (flushHolding rules k s)
  | .advance _ | .take => s

theorem step_timed {i : Input} {instant : Nat} (timed : i.instant? = some instant) (s : State) :
    step rules s i = handle rules (advanceTo rules instant s) i := by
  cases i <;> cases timed <;> rfl

theorem handle_now (s : State) (i : Input) : (handle rules s i).now = s.now := by
  cases i with
  | down k _ =>
    simp only [handle]
    split
    · rfl
    · exact Moves.now (moves_accept k { state := s })
  | up k _ => exact (release_frame rules _ _ _).2.trans (Moves.now (moves_flushHolding rules k { state := s }).1)
  | advance _ => rfl
  | take => rfl

theorem told_accept {w : Telling} {s : State} (held : s.HoldsMovable w.delay) (fresh : Movable w.delay s.now)
    (clock : w.now = s.now + w.delay) (k : Key) : (accept rules k s).told w = accept rules k (s.told w) := by
  have now : (s.told w).now = s.now + w.delay := clock
  have noted : (s.note (.accepted k s.now)).told w = (s.told w).note (.accepted k (s.told w).now) := by
    rw [State.told_note rfl, now]
    rfl
  cases hb : s.buffer with
  | none =>
    have free : (s.told w).buffer = none := congrArg (Option.map (Buffer.later w.delay)) hb
    rw [accept_free hb, accept_free free, told_press rules k fresh, noted, now]
  | some b =>
    have still : (s.told w).buffer = some (b.later w.delay) := congrArg (Option.map (Buffer.later w.delay)) hb
    rw [accept_held hb, accept_held still, told_extend rules (held b hb) k fresh, noted, now]

theorem told_handle {w : Telling} {s : State} (held : s.HoldsMovable w.delay) (fresh : Movable w.delay s.now)
    (clock : w.now = s.now + w.delay) (i : Input) : (handle rules s i).told w = handle rules (s.told w) i := by
  cases i with
  | down k _ =>
    simp only [handle, State.told_isDown]
    split
    · exact State.told_note rfl s
    · exact told_accept held fresh clock k
  | up k _ =>
    have now : (s.told w).now = s.now + w.delay := clock
    simp only [handle]
    rw [told_release rules k fresh, told_flushHolding rules held, now]
  | advance _ => rfl
  | take => rfl

theorem recast_handle (s : State) (i : Input) (earlier : List Output) :
    (handle rules s i).recast earlier s.now = handle rules (s.recast earlier s.now) i := by
  rw [State.recast_eq_told, State.recast_eq_told]
  exact told_handle (holdsMovable_zero s) (movable_zero s.now) rfl i

/-! ## Runs in slices -/

/-- The state of a session with all that was ever output, and without complaints about late events. -/
def Session.whole (x : Session) : State := x.state.recast x.taken x.state.now

theorem Session.take_whole (x : Session) : (x.step rules .take).whole = x.whole := by
  simp [whole, step, State.recast, State.punctual]

theorem Session.step_taken {i : Input} {instant : Nat} (timed : i.instant? = some instant) (x : Session) :
    (x.step rules i).taken = x.taken := by
  cases i <;> cases timed <;> rfl

/-- An event acts on the state that the advance to its instant leaves. -/
theorem Session.step_whole {i : Input} {instant : Nat} (timed : i.instant? = some instant) (x : Session) :
    (x.step rules i).whole =
      handle rules ((advanceTo rules instant x.state).recast x.taken (max x.state.now instant)) i := by
  have ht : (handle rules (advanceTo rules instant x.state) i).recast x.taken (advanceTo rules instant x.state).now =
      handle rules ((advanceTo rules instant x.state).recast x.taken (advanceTo rules instant x.state).now) i :=
    recast_handle _ i x.taken
  rw [advanceTo_clock] at ht
  rw [whole, step_taken timed, step_state, step_timed timed, handle_now, advanceTo_clock, ht]

theorem Session.step_congr {x y : Session} (hx : Reachable rules x ∧ x.waiting = [])
    (hy : Reachable rules y ∧ y.waiting = []) (h : x.whole = y.whole) (i : Input) :
    (x.step rules i).whole = (y.step rules i).whole := by
  cases ht : i.instant? with
  | none =>
    cases i <;> cases ht
    rw [take_whole, take_whole, h]
  | some instant =>
    -- the state that an event acts on, by what the session told so far
    have told : ∀ {z : Session}, Reachable rules z ∧ z.waiting = [] →
        (advanceTo rules instant z.state).recast z.taken (max z.state.now instant) =
          fireDue rules (max z.whole.now instant) (z.whole.recast [] (max z.whole.now instant)) := by
      intro z hz
      rw [hz.1.recast_advanceTo hz.2, whole, State.recast_recast]
      rfl
    rw [step_whole ht, step_whole ht, told hx, told hy, h]

theorem Session.foldl_congr (inputs : List Input) :
    ∀ {x y : Session}, Reachable rules x ∧ x.waiting = [] → Reachable rules y ∧ y.waiting = [] →
      x.whole = y.whole →
      (inputs.foldl (Session.step rules) x).whole = (inputs.foldl (Session.step rules) y).whole := by
  induction inputs with
  | nil => exact fun _ _ h => h
  | cons i inputs ih =>
    intro x y hx hy h
    exact ih (hx.1.step hx.2 i) (hy.1.step hy.2 i) (step_congr hx hy h i)

/-- An advance in front of an event makes no difference after it. -/
theorem Session.step_advance {x : Session} (hx : Reachable rules x ∧ x.waiting = []) {i : Input} {instant a : Nat}
    (timed : i.instant? = some instant) (early : a ≤ max x.state.now instant) :
    ((x.step rules (.advance a)).step rules i).whole = (x.step rules i).whole := by
  have hm : max (advanceTo rules a x.state).now instant = max x.state.now instant := by
    rw [advanceTo_clock]
    omega
  have ha := hx.1.advanceTo_advanceTo hx.2 early x.taken
  rw [step_whole timed, step_whole timed, ← ha, ← hm]
  rfl

/-- Nor does it if output is taken in between. -/
theorem Session.slice_whole {i : Input} {instant a : Nat} (timed : i.instant? = some instant) (after : List Input)
    (takes : Nat) :
    ∀ {x y : Session}, Reachable rules x ∧ x.waiting = [] → Reachable rules y ∧ y.waiting = [] →
      y.whole = (x.step rules (.advance a)).whole → a ≤ max x.state.now instant →
      ((List.replicate takes Input.take ++ i :: after).foldl (Session.step rules) y).whole =
        ((List.replicate takes Input.take ++ i :: after).foldl (Session.step rules) x).whole := by
  induction takes with
  | zero =>
    intro x y hx hy h early
    have hs := step_congr hy (hx.1.step hx.2 _) h i
    exact foldl_congr after (hy.1.step hy.2 i) (hx.1.step hx.2 i) (hs.trans (step_advance hx timed early))
  | succ n ih =>
    intro x y hx hy h early
    have ht := hx.1.step hx.2 .take
    refine ih ht (hy.1.step hy.2 .take) ?_ early
    rw [take_whole, h]
    exact step_congr hx ht x.take_whole.symm _

variable (rules) in
/-- One run is another with one more advance, which leads no further than the event that comes next. -/
inductive Slice : List Input → List Input → Prop where
  | insert (before : List Input) (takes : Nat) {i : Input} {instant a : Nat} (timed : i.instant? = some instant)
      (early : a ≤ max (run rules before).now instant) (after : List Input) :
    Slice (before ++ (List.replicate takes Input.take ++ i :: after))
      (before ++ .advance a :: (List.replicate takes Input.take ++ i :: after))

theorem Slice.whole {inputs more : List Input} (h : Slice rules inputs more) :
    (session rules more).whole = (session rules inputs).whole := by
  obtain ⟨before, takes, timed, early, after⟩ := h
  have hx := reachable_session rules before
  rw [session, session, List.foldl_append, List.foldl_append, List.foldl_cons]
  exact Session.slice_whole timed after takes hx (hx.1.step hx.2 _) rfl (session_state rules before ▸ early)

/-- Time slicing makes no difference. An advance that stops on the way leads to the same state, complaints about late
events apart. In a run, advances that each lead no further than the next event change neither the state at the end nor
what was output from the start. -/
theorem time_slices (rules : List Manipulator) :
    (∀ inputs a b, a ≤ b →
      (advanceTo rules b (advanceTo rules a (run rules inputs))).punctual =
        (advanceTo rules b (run rules inputs)).punctual) ∧
    ∀ inputs more, Relation.ReflTransGen (Slice rules) inputs more →
      (session rules more).whole = (session rules inputs).whole := by
  refine ⟨fun inputs a b early => ?_, fun inputs more slices => ?_⟩
  · obtain ⟨hx, idle⟩ := reachable_session rules inputs
    have effective : a ≤ max (session rules inputs).state.now b := Nat.le_trans early (Nat.le_max_right _ _)
    have ha := hx.advanceTo_advanceTo idle effective []
    rw [session_state] at ha
    have hn : (advanceTo rules b (advanceTo rules a (run rules inputs))).now = max (run rules inputs).now b := by
      rw [advanceTo_clock, advanceTo_clock]
      omega
    rw [State.punctual_eq, State.punctual_eq, hn, advanceTo_clock]
    exact ha
  · induction slices with
    | refl => rfl
    | tail _ slice ih => exact slice.whole.trans ih

end

end KeyRules.Engine
