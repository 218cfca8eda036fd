import KeyRules.Proofs.Engine.Calm
import KeyRules.Proofs.Engine.Timers
import Mathlib.Data.List.Perm.Subperm

/-!
# Deadlines

Every running countdown, hold timer and window has a deadline of its own: it is numbered when it starts, and no
operation starts more than one (`Renews`). A timer that fires takes away its deadline and no other one
(`Orderly.deadlines_fire`), and a press takes away all of them and may start one (`dispatch_deadlines`).
-/

namespace KeyRules.Engine

section
variable {rules : List Manipulator}

/-! ## Presses and releases -/

/-- From one state to a later one timers may stop, and one may start. -/
def Renews (s t : State) : Prop :=
  s.serial ≤ t.serial ∧ ∃ new : Option Deadline, t.deadlines.Subperm (new.toList ++ s.deadlines) ∧
    ∀ d ∈ new, s.serial < d.serial ∧ d.serial ≤ t.serial ∧ d.instant ≤ lastInstant

theorem Renews.of_subperm {s t : State} (serial : s.serial ≤ t.serial) (fewer : t.deadlines.Subperm s.deadlines) :
    Renews s t := ⟨serial, none, fewer, fun _ hd => by cases hd⟩

variable (rules) in
/-- A press stops every timer and may start its own. -/
theorem dispatch_deadlines (keys : List Key) (rule : Option Nat) (instant : Nat) (s : State) :
    ∃ new : Option Deadline,
      (dispatch rules keys rule instant s).deadlines = new.toList ++ (s.buffer.map (·.deadline)).toList ∧
      ∀ d ∈ new, s.serial < d.serial ∧ d.serial ≤ (dispatch rules keys rule instant s).serial ∧
        ∃ wait, d.instant = after instant wait := by
  have rests : s.resting.filterMap (·.deadline) = [] :=
    List.filterMap_eq_nil_iff.2 fun c hc => resting_rests hc
  have stopped : (s.bare.presses.map Press.disturb).filterMap (·.holdTimer) = [] := by
    rw [List.filterMap_map]
    exact List.filterMap_eq_nil_iff.2 fun _ _ => rfl
  rw [← deadlines_bare, ← State.bare_serial (dispatch rules keys rule instant s)]
  obtain ⟨i, m, rfl, hm⟩ | hr := rule_cases rules rule
  · have waits : (awaited (s.serial + 1) keys i m).filterMap (·.deadline) = [] := by
      unfold awaited
      split <;> rfl
    refine ⟨(begun (s.serial + 1) keys i instant m).holdTimer, ?_, fun d hd => ?_⟩
    · rw [bare_dispatch_rule rules keys hm]
      simp only [State.deadlines, List.filterMap_append, List.filterMap_cons, List.filterMap_nil, rests, stopped,
        waits, List.nil_append]
      cases (begun (s.serial + 1) keys i instant m).holdTimer <;> rfl
    · rw [bare_dispatch_rule rules keys hm]
      obtain ⟨limit, threshold, rfl⟩ := Option.map_eq_some_iff.1 hd
      simp only [threshold, Option.isSome_some, if_true]
      exact ⟨by omega, by omega, _, rfl⟩
  · refine ⟨none, ?_, fun _ hd => by cases hd⟩
    rw [bare_dispatch_plain rules keys hr]
    simp only [State.deadlines, List.filterMap_append, rests, stopped, List.nil_append]
    rfl

variable (rules) in
theorem dispatch_renews (keys : List Key) (rule : Option Nat) (instant : Nat) (s : State) :
    Renews s (dispatch rules keys rule instant s) := by
  obtain ⟨p, cs, n, effect, -, -, -, serial, -⟩ := dispatch_effect rules keys rule instant s
  obtain ⟨new, left, fresh⟩ := dispatch_deadlines rules keys rule instant s
  have later : (dispatch rules keys rule instant s).serial = n := by rw [← State.bare_serial, effect]
  refine ⟨by omega, new, ?_, fun d hd => ?_⟩
  · rw [left, State.deadlines]
    exact (((List.sublist_append_right _ _).append_left new.toList)).subperm
  · obtain ⟨older, issued, wait, due⟩ := fresh d hd
    exact ⟨older, issued, due ▸ Nat.min_le_right _ _⟩

/-- The countdown of a press starts, unless it runs. -/
def Pending.start (id : Nat) (new : Deadline) (c : Pending) : Pending :=
  if c.press = id ∧ c.deadline = none then { c with deadline := some new } else c

/-- Only one delayed action is that of the press, so at most one countdown starts. -/
theorem countdowns_start {cs : List Pending} (nodup : (cs.map (·.press)).Nodup) (id : Nat) (new : Deadline) :
    (cs.map (Pending.start id new)).filterMap (·.deadline) = cs.filterMap (·.deadline) ∨
      ((cs.map (Pending.start id new)).filterMap (·.deadline)).Perm (new :: cs.filterMap (·.deadline)) := by
  induction cs with
  | nil => exact .inl rfl
  | cons c cs ih =>
    obtain ⟨fresh, nodup⟩ := List.nodup_cons.1 nodup
    by_cases rests : c.press = id ∧ c.deadline = none
    · have others : cs.map (Pending.start id new) = cs := by
        refine (List.map_congr_left fun d hd => if_neg fun he => fresh ?_).trans (List.map_id cs)
        exact List.mem_map.2 ⟨d, hd, he.1.trans rests.1.symm⟩
      refine .inr ?_
      rw [List.map_cons, others, Pending.start, if_pos rests, List.filterMap_cons_none rests.2]
      exact .refl _
    · rw [List.map_cons, Pending.start, if_neg rests]
      cases hc : c.deadline with
      | none =>
        rw [List.filterMap_cons_none hc, List.filterMap_cons_none hc]
        exact ih nodup
      | some d =>
        rw [List.filterMap_cons_some hc, List.filterMap_cons_some hc]
        exact (ih nodup).imp (congrArg (d :: ·)) fun moved => (moved.cons d).trans (.swap new d _)

theorem startCountdown_renews {s : State} (nodup : (s.pending.map (·.press)).Nodup) (id : Nat) (m : Manipulator)
    (instant : Nat) : Renews s (startCountdown id m instant s) := by
  unfold startCountdown
  cases m.delayed with
  | none => exact .of_subperm (Nat.le_refl _) (.refl _)
  | some l =>
    refine ⟨Nat.le_succ _, some ⟨after instant l.delay.toNat, s.serial + 1⟩, ?_, fun d hd => ?_⟩
    · have started := countdowns_start nodup id ⟨after instant l.delay.toNat, s.serial + 1⟩
      show ((s.pending.map (Pending.start _ _)).filterMap (·.deadline) ++ _ ++ _).Subperm _
      rcases started with same | more
      · rw [same]
        exact (List.sublist_cons_self _ _).subperm
      · exact ((more.append_right _).append_right _).subperm
    · obtain rfl := Option.some.inj hd
      exact ⟨Nat.lt_succ_self _, Nat.le_refl _, Nat.min_le_right _ _⟩

theorem deadlines_drop (s : State) (id : Nat) : (s.drop id).deadlines.Subperm s.deadlines :=
  (((List.filter_sublist.filterMap _).append_left _).append_right _).subperm

theorem deadlines_forgetPending (s : State) (id : Nat) : (s.forgetPending id).deadlines.Subperm s.deadlines :=
  (((List.filter_sublist.filterMap _).append_right _).append_right _).subperm

theorem deadlines_keep (ks : List Key) (s : State) (id : Nat) :
    (s.updatePress id (Press.keep ks)).deadlines = s.deadlines := by
  have kept : (s.updatePress id (Press.keep ks)).presses.filterMap (·.holdTimer) =
      s.presses.filterMap (·.holdTimer) := by
    rw [State.updatePress, List.filterMap_map]
    refine List.filterMap_congr fun p _ => ?_
    simp only [Function.comp]
    split <;> rfl
  rw [State.deadlines, kept]
  rfl

theorem Renews.trans_subperm {s t u : State} (h : Renews t u) (fewer : t.deadlines.Subperm s.deadlines)
    (serial : t.serial = s.serial) : Renews s u := by
  obtain ⟨later, new, left, fresh⟩ := h
  exact ⟨serial ▸ later, new, left.trans ((List.subperm_append_left _).2 fewer), serial ▸ fresh⟩

theorem settled_renews {s : State} (nodup : (s.pending.map (·.press)).Nodup) (p : Press) (i : Nat) (m : Manipulator)
    (instant : Nat) : Renews s (settled p i m instant s) := by
  have started : ∀ t : State, t.pending = s.pending → t.deadlines = s.deadlines → t.serial = s.serial →
      Renews s (startCountdown p.id m instant t) := fun t pending deadlines serial =>
    (startCountdown_renews (pending ▸ nodup) p.id m instant).trans_subperm (deadlines ▸ .refl _) serial
  unfold settled
  cases isTap m p instant with
  | false => exact started _ rfl rfl rfl
  | true =>
    simp only [Bool.true_and, if_true]
    split
    · exact .of_subperm (Nat.le_refl _) (deadlines_forgetPending _ p.id)
    · exact started _ rfl rfl rfl

theorem Renews.of_bare {s t : State} (h : Renews s.bare t.bare) : Renews s t := by
  simpa only [Renews, deadlines_bare, State.bare_serial] using h

theorem Orderly.release_renews {s : State} (h : Orderly rules s) (k : Key) (instant : Nat) :
    Renews s (Engine.release rules k instant s) := by
  cases hk : s.holder? k with
  | none =>
    rw [release_none rules hk]
    exact .of_subperm (Nat.le_refl _) (.refl _)
  | some p =>
    refine .of_bare ?_
    rw [bare_release rules hk]
    split
    · have dropped : ((s.bare.drop p.id).note (.released p.id)).deadlines.Subperm s.bare.deadlines :=
        deadlines_drop s.bare p.id
      obtain ⟨i, m, hr, hm⟩ | hr := rule_cases rules p.rule
      · rw [bare_endPress_rule rules hr hm]
        exact (settled_renews (s := (s.bare.drop p.id).note (.released p.id)) h.pending_nodup p i m instant
          ).trans_subperm dropped rfl
      · rw [bare_endPress_plain rules hr]
        exact .of_subperm (Nat.le_refl _) dropped
    · refine .of_subperm (Nat.le_refl _) ?_
      rw [deadlines_keep]

/-! ## Every moment of every run -/

/-- The deadlines differ, and all of them were given out. -/
structure Timed (s : State) : Prop where
  nodup : s.deadlines.Nodup
  issued : ∀ d ∈ s.deadlines, d.serial ≤ s.serial
  bounded : ∀ d ∈ s.deadlines, d.instant ≤ lastInstant

theorem Timed.renews {s t : State} (h : Timed s) (renewed : Renews s t) : Timed t := by
  obtain ⟨serial, new, left, fresh⟩ := renewed
  have all : ∀ d ∈ t.deadlines, d ∈ new ∨ d ∈ s.deadlines := fun d hd =>
    (List.mem_append.1 (left.subset hd)).imp_left Option.mem_toList.1
  refine ⟨?_, fun d hd => ?_, fun d hd => ?_⟩
  · have differ : (new.toList ++ s.deadlines).Nodup := by
      cases new with
      | none => exact h.nodup
      | some e =>
        refine List.nodup_cons.2 ⟨fun he => ?_, h.nodup⟩
        have := h.issued e he
        have := (fresh e rfl).1
        omega
    obtain ⟨kept, same, sub⟩ := left
    exact same.nodup_iff.1 (differ.sublist sub)
  · rcases all d hd with hd | hd
    · exact (fresh d hd).2.1
    · exact Nat.le_trans (h.issued d hd) serial
  · rcases all d hd with hd | hd
    · exact (fresh d hd).2.2
    · exact h.bounded d hd

theorem Timed.fewer {s t : State} (h : Timed s) (serial : s.serial ≤ t.serial)
    (fewer : t.deadlines.Subperm s.deadlines) : Timed t := h.renews (.of_subperm serial fewer)

theorem Timed.same {s t : State} (h : Timed s) (serial : t.serial = s.serial) (deadlines : t.deadlines = s.deadlines) :
    Timed t := h.fewer (Nat.le_of_eq serial.symm) (deadlines ▸ .refl _)

theorem Timed.note {s : State} (h : Timed s) (i : Incident) : Timed (s.note i) := h.same rfl rfl

theorem Orderly.fire_timed {s : State} (ho : Orderly rules s) (h : Timed s) {d : Deadline} {timer : Timer}
    (first : earliest s.timers = some (d, timer)) : Timed (Engine.fire rules s d timer) := by
  obtain ⟨ps, cs, effect, -⟩ := fire_effect rules s d timer
  have serial : (Engine.fire rules s d timer).serial = s.serial := by rw [← State.bare_serial, effect]; rfl
  exact h.fewer (Nat.le_of_eq serial.symm)
    ((List.subperm_cons_self).trans (ho.deadlines_fire first).symm.subperm)

theorem deadlines_free {s : State} (free : s.buffer = none) :
    s.deadlines = s.pending.filterMap (·.deadline) ++ s.presses.filterMap (·.holdTimer) := by
  rw [State.deadlines, free]
  exact List.append_nil _

theorem Timed.free {s : State} (h : Timed s) : Timed { s with buffer := none } := by
  refine h.fewer (Nat.le_refl _) ?_
  rw [deadlines_free rfl]
  exact (List.sublist_append_left _ _).subperm

theorem Timed.finish {s : State} (h : Timed s) (b : Buffer) (i : Nat) : Timed (finish rules b i s) := by
  rw [finish_eq]
  refine Timed.renews ?_ (dispatch_renews rules _ _ _ _)
  exact handOver_of (P := Timed) h.free fun _ _ hu => hu.note _

theorem startBuffer_renews {s : State} (free : s.buffer = none) (k : Key) (instant : Nat) :
    Renews s (startBuffer rules k instant s) := by
  obtain ⟨b, held, serial, wait, due⟩ : ∃ b, (startBuffer rules k instant s).buffer = some b ∧
      b.deadline.serial = s.serial + 1 ∧ ∃ wait, b.deadline.instant = after instant wait := ⟨_, rfl, rfl, _, rfl⟩
  have opened : (startBuffer rules k instant s).deadlines = s.deadlines ++ [b.deadline] := by
    rw [deadlines_free free, State.deadlines, held]
    rfl
  refine ⟨Nat.le_succ _, some b.deadline, ?_, fun d hd => ?_⟩
  · rw [opened]
    exact (List.perm_append_singleton _ _).subperm
  · obtain rfl := Option.some.inj hd
    exact ⟨by omega, Nat.le_of_eq serial, due ▸ Nat.min_le_right _ _⟩

theorem Reachable.timed {x : Session} (hx : Reachable rules x) : Timed x.state := by
  induction hx with
  | start => exact ⟨List.nodup_nil, fun _ hd => (List.not_mem_nil hd).elim, fun _ hd => (List.not_mem_nil hd).elim⟩
  | move hx step ih =>
    cases step with
    | fire first => exact hx.orderly.fire_timed ih first
    | dispatch simultaneous free oldest once single => exact ih.renews (dispatch_renews rules _ _ _ _)
    | holdBack free oldest found together => exact ih.renews (startBuffer_renews free _ _)
    | join held oldest narrowed some_left =>
      refine ih.same rfl ?_
      rw [State.deadlines, State.deadlines, held]
      rfl
    | close held due => exact ih.note _
    | finish held idle first ready => exact ih.finish _ _
    | flush held => exact ih.free.same rfl rfl
  | @tick x _ _ instant ih =>
    exact State.tick_of (P := Timed) (ih.same rfl rfl) fun _ _ _ hu => hu.note _
  | accept _ _ _ ih => exact ih.note _
  | refuse _ _ _ ih => exact ih.note _
  | release hx _ _ ih => exact ih.renews (hx.orderly.release_renews _ _)
  | take _ _ ih => exact ih.same rfl rfl

/-! ## Instants of the keys that wait -/

/-- The instants of the keys that are held back or wait, in order. -/
def Session.instants (x : Session) : List Nat := ((x.state.buffer.map (·.keys)).getD [] ++ x.waiting).map (·.2)

theorem Session.instants_free {x : Session} (free : x.state.buffer = none) : x.instants = x.waiting.map (·.2) := by
  rw [instants, free]
  rfl

theorem Session.instants_held {x : Session} {b : Buffer} (held : x.state.buffer = some b) :
    x.instants = (b.keys ++ x.waiting).map (·.2) := by
  rw [instants, held]
  rfl

theorem Move.instants {x y : Session} (m : Move rules x y) : y.instants.Sublist x.instants := by
  cases m with
  | fire first =>
    rw [Session.instants, (fire_frame rules _ _ _).1]
    exact .refl _
  | dispatch simultaneous free oldest once single =>
    rw [Session.instants_free ((dispatch_frame rules _ _ _ _).1.trans free), Session.instants_free free, oldest]
    exact List.sublist_cons_self _ _
  | holdBack free oldest found together =>
    rw [Session.instants_free free, oldest]
    exact .refl _
  | join held oldest narrowed some_left =>
    rw [Session.instants_held held, oldest, Session.instants_held rfl, List.append_nil]
  | close held due => exact .refl _
  | finish held idle first ready =>
    rw [Session.instants_free (finish_frame rules _ _ _).1, idle]
    exact List.nil_sublist _
  | flush held =>
    rw [Session.instants_held held]
    exact .refl _

/-- Keys that are held back or wait went down one after the other. -/
theorem Reachable.sequenced {x : Session} (hx : Reachable rules x) :
    x.instants.Pairwise (· ≤ ·) ∧ ∀ t ∈ x.instants, t ≤ x.state.now := by
  induction hx with
  | start => exact ⟨.nil, fun _ ht => (List.not_mem_nil ht).elim⟩
  | move hx step ih =>
    rw [step.now]
    exact ⟨ih.1.sublist step.instants, fun t ht => ih.2 t (step.instants.subset ht)⟩
  | @tick x _ _ instant ih =>
    have same : ({ x with state := x.state.tick instant } : Session).instants = x.instants := by
      rw [Session.instants, State.tick_buffer]
      rfl
    rw [same, State.tick_clock]
    exact ⟨ih.1, fun t ht => Nat.le_trans (ih.2 t ht) (Nat.le_max_left _ _)⟩
  | @accept x _ idle k _ ih =>
    have more : ({ x with
        state := x.state.note (.accepted k x.state.now)
        waiting := [(k, x.state.now)]
        accepted := x.accepted ++ [k]
        down := pressDown x.down k } : Session).instants = x.instants ++ [x.state.now] := by
      simp only [Session.instants, idle, List.append_nil, List.map_append]
      rfl
    rw [more]
    refine ⟨List.pairwise_append.2 ⟨ih.1, List.pairwise_singleton _ _, fun t ht u hu => ?_⟩, fun t ht => ?_⟩
    · rw [List.mem_singleton.1 hu]
      exact ih.2 t ht
    · rcases List.mem_append.1 ht with ht | ht
      · exact ih.2 t ht
      · exact Nat.le_of_eq (List.mem_singleton.1 ht)
  | refuse _ _ _ ih => exact ih
  | @release x _ _ k _ ih =>
    obtain ⟨buffer, now⟩ := release_frame rules k x.state.now x.state
    rw [Session.instants, buffer, now]
    exact ih
  | take _ _ ih => exact ih

end

end KeyRules.Engine
