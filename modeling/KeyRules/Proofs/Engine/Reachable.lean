import KeyRules.Proofs.Engine.Session

/-!
# Reachable moments

Every operation of the engine is a series of moves (`moves_advanceTo`, `moves_accept`, `moves_flushHolding`).
With what comes from outside they make up every run: `reachable_session`.
-/

namespace KeyRules.Engine

/-! ## What the moves leave alone -/

section
variable (rules : List Manipulator)

theorem earliest_mem {ts : List (Deadline × Timer)} {t : Deadline × Timer} (h : earliest ts = some t) :
    t ∈ ts := by
  induction ts with
  | nil => cases h
  | cons u us ih =>
    simp only [earliest] at h
    cases he : earliest us with
    | none =>
      rw [he] at h
      cases h
      exact List.mem_cons_self
    | some v =>
      rw [he] at h
      simp only at h
      split at h
      · exact List.mem_cons_of_mem _ (ih (he.trans h))
      · cases h
        exact List.mem_cons_self

/-- The timer that fires first belongs to a running countdown or to a press. -/
theorem earliest_timers {s : State} {d : Deadline} {timer : Timer}
    (h : earliest s.timers = some (d, timer)) :
    (∃ p ∈ s.pending, p.deadline = some d ∧ timer = .countdown p) ∨
      ∃ p ∈ s.presses, p.holdTimer = some d ∧ timer = .hold p := by
  have hm := earliest_mem h
  simp only [State.timers, List.mem_append, List.mem_filterMap, Option.map_eq_some_iff, Prod.mk.injEq] at hm
  obtain ⟨p, hp, e, he, rfl, rfl⟩ | ⟨p, hp, e, he, rfl, rfl⟩ := hm
  · exact .inl ⟨p, hp, he, rfl⟩
  · exact .inr ⟨p, hp, he, rfl⟩

theorem State.frame_of_bare {s t u : State} (h : s.bare = t) (hb : t.buffer = u.buffer)
    (hn : t.now = u.now) : s.buffer = u.buffer ∧ s.now = u.now := by
  subst h
  exact ⟨hb, hn⟩

theorem fire_frame (s : State) (d : Deadline) (timer : Timer) :
    (fire rules s d timer).buffer = s.buffer ∧ (fire rules s d timer).now = s.now := by
  obtain ⟨ps, cs, h, -⟩ := fire_effect rules s d timer
  exact State.frame_of_bare h rfl rfl

variable {rules} in
/-- What no timer changes is the same when the due ones have fired. -/
theorem settle_keeps {α : Type} {f : State → α} (kept : ∀ s d timer, f (fire rules s d timer) = f s)
    (isDue : Deadline → Bool) (s : State) : f (settle rules isDue s) = f s := by
  have rounds : ∀ n s, f (fireWhile rules isDue n s) = f s := by
    intro n
    induction n with
    | zero => exact fun _ => rfl
    | succ n ih =>
      intro s
      simp only [fireWhile]
      split
      · rfl
      · split
        · exact (ih _).trans (kept s _ _)
        · rfl
  exact rounds _ s

@[simp] theorem settle_buffer (isDue : Deadline → Bool) (s : State) :
    (settle rules isDue s).buffer = s.buffer := settle_keeps (fun s d timer => (fire_frame rules s d timer).1) isDue s

@[simp] theorem settle_now (isDue : Deadline → Bool) (s : State) : (settle rules isDue s).now = s.now :=
  settle_keeps (fun s d timer => (fire_frame rules s d timer).2) isDue s

theorem dispatch_frame (keys : List Key) (rule : Option Nat) (instant : Nat) (s : State) :
    (dispatch rules keys rule instant s).buffer = s.buffer ∧ (dispatch rules keys rule instant s).now = s.now := by
  obtain ⟨p, cs, n, h, -⟩ := dispatch_effect rules keys rule instant s
  exact State.frame_of_bare h rfl rfl

theorem release_frame (k : Key) (instant : Nat) (s : State) :
    (release rules k instant s).buffer = s.buffer ∧ (release rules k instant s).now = s.now := by
  obtain ⟨ps, cs, n, h, -⟩ := release_effect rules k instant s
  exact State.frame_of_bare h rfl rfl

theorem findRule_single {s : State} {k : Key} {i : Nat} (h : findRule rules s k false = some i) :
    rules[i]?.any (·.trigger.isTogether) = false := by
  obtain ⟨hi, hr, -⟩ := List.findIdx?_eq_some_iff_getElem.1 h
  rw [List.getElem?_eq_getElem hi, Option.any_some]
  cases ht : rules[i].trigger with
  | single j any => rfl
  | together ks order window => simp [reactsTo, ht] at hr

/-! ## Operations as moves -/

variable {rules}

theorem moves_fireWhile (isDue : Deadline → Bool) (n : Nat) :
    ∀ x : Session, Moves rules x { x with state := fireWhile rules isDue n x.state } := by
  induction n with
  | zero => exact fun _ => .refl
  | succ n ih =>
    intro x
    simp only [fireWhile]
    split
    · exact .refl
    · rename_i d timer h
      split
      · exact .head (.fire h) (ih _)
      · exact .refl

theorem moves_settle (isDue : Deadline → Bool) (x : Session) :
    Moves rules x { x with state := settle rules isDue x.state } := moves_fireWhile isDue _ x

theorem moves_press {x : Session} {k : Key} {instant : Nat} {later : List (Key × Nat)} {simultaneous : Bool}
    (free : x.state.buffer = none) (oldest : x.waiting = (k, instant) :: later)
    (fresh : simultaneous = true → later = []) :
    Moves rules x { x with
      state := press rules k instant simultaneous x.state, waiting := later } := by
  have hd : (∀ i, findRule rules x.state k simultaneous = some i → rules[i]?.any (·.trigger.isTogether) = false) →
      Move rules x { x with
        state := dispatch rules [k] (findRule rules x.state k simultaneous) instant x.state, waiting := later } :=
    Move.dispatch simultaneous free oldest fresh
  unfold press
  cases hf : findRule rules x.state k simultaneous with
  | none =>
    rw [hf] at hd
    exact .single (hd fun i hi => by cases hi)
  | some i =>
    simp only
    split
    · rename_i ht
      cases simultaneous with
      | false => rw [findRule_single rules hf] at ht; cases ht
      | true =>
        obtain rfl := fresh rfl
        exact .single (.holdBack free oldest hf ht)
    · rename_i ht
      rw [hf] at hd
      refine .single (hd fun j hj => ?_)
      cases hj
      exact Bool.eq_false_iff.2 ht

theorem press_buffer {k : Key} {instant : Nat} {s : State} :
    (press rules k instant false s).buffer = s.buffer := by
  unfold press
  split
  · exact (dispatch_frame rules _ _ _ s).1
  · rename_i i hf
    rw [findRule_single rules hf, if_neg Bool.false_ne_true]
    exact (dispatch_frame rules _ _ _ s).1

variable (rules) in
theorem moves_replay (ks : List (Key × Nat)) :
    ∀ {x : Session} {later : List (Key × Nat)}, x.state.buffer = none → x.waiting = ks ++ later →
      Moves rules x { x with state := ks.foldl (replay rules) x.state, waiting := later } ∧
        (ks.foldl (replay rules) x.state).buffer = none := by
  induction ks with
  | nil =>
    intro x later free oldest
    subst oldest
    exact ⟨.refl, free⟩
  | cons k ks ih =>
    intro x later free oldest
    have hfree : (settleBy rules k.2 x.state).buffer = none := (settle_buffer rules _ _).trans free
    have hp : Moves rules { x with state := settleBy rules k.2 x.state }
        { x with state := replay rules x.state k, waiting := ks ++ later } :=
      moves_press hfree oldest fun h => by cases h
    have hr := ih (x := { x with state := replay rules x.state k, waiting := ks ++ later })
      (press_buffer.trans hfree) rfl
    exact ⟨(moves_settle _ x).trans (hp.trans hr.1), hr.2⟩

variable (rules) in
theorem moves_flush {x : Session} {b : Buffer} (held : x.state.buffer = some b) :
    Moves rules x { x with state := flush rules b x.state } ∧ (flush rules b x.state).buffer = none := by
  have h := moves_replay rules b.keys (x := { x with
    state := { x.state with buffer := none }.note (.flushed b.keys.length)
    waiting := b.keys ++ x.waiting }) rfl rfl
  exact ⟨.head (.flush held) h.1, h.2⟩

theorem moves_tryFinish {x : Session} {b : Buffer} (held : x.state.buffer = some b) (idle : x.waiting = []) :
    Moves rules x { x with state := tryFinish rules b x.state } := by
  unfold tryFinish
  split
  · rename_i i first
    split
    · exact .refl
    · rename_i ready
      exact .single (.finish held idle first (.inl (Bool.eq_false_iff.2 ready)))
  · exact .refl

variable (rules) in
theorem moves_closeWindow {x : Session} {b : Buffer} (held : x.state.buffer = some b)
    (due : b.deadline.instant ≤ x.state.now) (idle : x.waiting = []) :
    Moves rules x { x with state := closeWindow rules b x.state } := by
  refine .head (.close held due) ?_
  unfold closeWindow
  simp only
  split
  · rename_i i first
    exact .single (.finish held idle first (.inr due))
  · exact (moves_flush rules (x := { x with state := x.state.note (.windowClosed b.deadline) }) held).1

theorem moves_fireDue {instant : Nat} {x : Session} (due : instant ≤ x.state.now) (idle : x.waiting = []) :
    Moves rules x { x with state := fireDue rules instant x.state } := by
  unfold fireDue
  split
  · exact moves_settle _ _
  · rename_i b held
    split
    · rename_i closes
      have hb := (settle_buffer rules (fun d => !b.deadline.before d) x.state).trans held
      have hn := settle_now rules (fun d => !b.deadline.before d) x.state
      have hc := moves_closeWindow rules (x := { x with
        state := settle rules (fun d => !b.deadline.before d) x.state }) hb
        (hn.symm ▸ Nat.le_trans closes due) idle
      exact (moves_settle _ _).trans (hc.trans (moves_settle _ _))
    · exact moves_settle _ _

theorem moves_advanceTo (instant : Nat) {x : Session} (idle : x.waiting = []) :
    Moves rules { x with state := x.state.tick instant }
      { x with state := advanceTo rules instant x.state } :=
  moves_fireDue (x := { x with state := x.state.tick instant }) (Nat.le_refl _) idle

theorem moves_extend {x : Session} {b : Buffer} {k : Key} {instant : Nat} (held : x.state.buffer = some b)
    (oldest : x.waiting = [(k, instant)]) :
    Moves rules x { x with state := extend rules b k instant x.state, waiting := [] } := by
  unfold extend
  simp only
  split
  · have hf := moves_flush rules held
    exact hf.1.trans (moves_press (x := { x with state := flush rules b x.state }) hf.2 oldest (fun _ => rfl))
  · rename_i some_left
    refine .head (.join held oldest rfl fun h => some_left (List.isEmpty_iff.2 h)) ?_
    exact moves_tryFinish rfl rfl

theorem moves_accept (k : Key) (x : Session) :
    Moves rules { x with
        state := x.state.note (.accepted k x.state.now), waiting := [(k, x.state.now)] }
      { x with state := accept rules k x.state, waiting := [] } := by
  unfold accept
  simp only
  split
  · rename_i free
    exact moves_press (x := { x with
      state := x.state.note (.accepted k x.state.now), waiting := [(k, x.state.now)] }) free rfl (fun _ => rfl)
  · rename_i b held
    exact moves_extend (x := { x with
      state := x.state.note (.accepted k x.state.now), waiting := [(k, x.state.now)] }) held rfl

theorem State.buffered_of_none {s : State} (h : s.buffer = none) : s.buffered = [] := by
  simp [buffered, h]

theorem State.buffered_of_some {s : State} {b : Buffer} (h : s.buffer = some b) :
    s.buffered = b.keys.map (·.1) := by
  simp [buffered, h]

variable (rules) in
theorem moves_flushHolding (k : Key) (x : Session) :
    Moves rules x { x with state := flushHolding rules k x.state } ∧
      k ∉ (flushHolding rules k x.state).buffered := by
  unfold flushHolding
  split
  · rename_i free
    rw [State.buffered_of_none free]
    exact ⟨.refl, List.not_mem_nil⟩
  · rename_i b held
    split
    · have hf := moves_flush rules held
      rw [State.buffered_of_none hf.2]
      exact ⟨hf.1, List.not_mem_nil⟩
    · rename_i hk
      rw [State.buffered_of_some held]
      refine ⟨.refl, fun hm => hk ?_⟩
      obtain ⟨j, hj, rfl⟩ := List.mem_map.1 hm
      exact List.any_eq_true.2 ⟨j, hj, beq_self_eq_true _⟩

variable (rules) in
theorem finish_frame (b : Buffer) (i : Nat) (s : State) :
    (finish rules b i s).buffer = none ∧ (finish rules b i s).now = s.now := by
  obtain ⟨more, hs, -⟩ := handOver_eq rules b i s
  rw [finish_eq, hs]
  exact dispatch_frame rules _ _ _ _

theorem Move.now {x y : Session} (m : Move rules x y) : y.state.now = x.state.now := by
  cases m with
  | fire first => exact (fire_frame rules _ _ _).2
  | dispatch _ _ _ _ _ => exact (dispatch_frame rules _ _ _ _).2
  | holdBack _ _ _ _ => rfl
  | join _ _ _ _ => rfl
  | close _ _ => rfl
  | finish _ _ _ _ => exact (finish_frame rules _ _ _).2
  | flush _ => rfl

theorem Moves.now {x y : Session} (m : Moves rules x y) : y.state.now = x.state.now := by
  induction m with
  | refl => rfl
  | tail _ m ih => exact (Move.now m).trans ih

/-! ## Every moment of every run -/

variable (rules) in
/-- A moment of some run. -/
inductive Reachable : Session → Prop where
  | start : Reachable {}
  | move {x y : Session} (h : Reachable x) (m : Move rules x y) : Reachable y
  /-- The clock moves on. -/
  | tick {x : Session} (h : Reachable x) (idle : x.waiting = []) (instant : Nat) :
    Reachable { x with state := x.state.tick instant }
  /-- A key that is up goes down. -/
  | accept {x : Session} (h : Reachable x) (idle : x.waiting = []) {k : Key}
      (isUp : x.state.isDown k = false) :
    Reachable { x with
      state := x.state.note (.accepted k x.state.now)
      waiting := [(k, x.state.now)]
      accepted := x.accepted ++ [k]
      down := pressDown x.down k }
  /-- A key that is down goes down again. -/
  | refuse {x : Session} (h : Reachable x) (idle : x.waiting = []) {k : Key}
      (isDown : x.state.isDown k = true) :
    Reachable { x with state := x.state.note (.repeatedDown k), down := pressDown x.down k }
  /-- A key that the buffer does not hold goes up. -/
  | release {x : Session} (h : Reachable x) (idle : x.waiting = []) {k : Key}
      (unbuffered : k ∉ x.state.buffered) :
    Reachable { x with
      state := release rules k x.state.now x.state
      down := x.down.filter (· != k)
      releases := x.releases ++ [x.state.now] }
  | take {x : Session} (h : Reachable x) (idle : x.waiting = []) :
    Reachable { x with state := { x.state with output := [] }, taken := x.taken ++ x.state.output }

theorem Reachable.moves {x y : Session} (h : Reachable rules x) (m : Moves rules x y) : Reachable rules y := by
  induction m with
  | refl => exact h
  | tail _ m ih => exact .move ih m

theorem Reachable.advanceTo {x : Session} (h : Reachable rules x) (idle : x.waiting = []) (instant : Nat) :
    Reachable rules { x with state := advanceTo rules instant x.state } :=
  (h.tick idle instant).moves (moves_advanceTo instant idle)

theorem Reachable.step {x : Session} (h : Reachable rules x) (idle : x.waiting = []) (i : Input) :
    Reachable rules (x.step rules i) ∧ (x.step rules i).waiting = [] := by
  refine ⟨?_, by cases i <;> exact idle⟩
  cases i with
  | down k instant =>
    have ha := h.advanceTo idle instant
    simp only [Session.step, keyDown]
    cases hd : (Engine.advanceTo rules instant x.state).isDown k with
    | true => exact ha.refuse idle hd
    | false =>
      have hm := (ha.accept idle hd).moves (moves_accept k { x with
        state := Engine.advanceTo rules instant x.state
        accepted := x.accepted ++ [k]
        down := pressDown x.down k })
      rw [← idle] at hm
      exact hm
  | up k instant =>
    have hf := moves_flushHolding rules k { x with
      state := Engine.advanceTo rules instant x.state }
    have hn : (Engine.flushHolding rules k (Engine.advanceTo rules instant x.state)).now =
        (Engine.advanceTo rules instant x.state).now := Moves.now hf.1
    have hr := ((h.advanceTo idle instant).moves hf.1).release idle hf.2
    have ht : (keyUp rules k instant x.state).now = (Engine.advanceTo rules instant x.state).now :=
      (release_frame rules _ _ _).2.trans hn
    simp only [hn] at hr
    simp only [Session.step, ht]
    exact hr
  | advance instant => exact h.advanceTo idle instant
  | take => exact h.take idle

variable (rules) in
/-- Between two inputs no key waits. -/
theorem reachable_session (inputs : List Input) :
    Reachable rules (session rules inputs) ∧ (session rules inputs).waiting = [] := by
  induction inputs using List.reverseRecOn with
  | nil => exact ⟨.start, rfl⟩
  | append_singleton inputs i ih =>
    rw [session_append]
    exact ih.1.step ih.2 i

end

end KeyRules.Engine
