import KeyRules.Proofs.Compiled
import KeyRules.Proofs.Engine.Growth
import KeyRules.Proofs.Engine.TimerLoop

/-!
# What the timer loop leaves

When the loop is over nothing is due any more. What was due lost its deadline in one of the rounds, and the journal
tells how (`Round.ends`). While no buffer is held, each timer that fires comes after those that fired before: a new one
starts only with a press, and by then the loop has not gone beyond the instant of its key (`Loop.Follows`). All of it
together is `timer_loop_complete`.
-/

namespace KeyRules.Engine

section
variable {rules : List Manipulator}

/-! ## What the rounds write -/

def firings (journal : List Incident) : List Deadline := journal.filterMap fun
  | .fired d => some d
  | _ => none

/-- These lines tell the end of a timer: it fired, its window closed, or a press began. -/
def Deadline.EndsIn (d : Deadline) (lines : List Incident) : Prop :=
  .fired d ∈ lines ∨ .windowClosed d ∈ lines ∨
    ∃ press keys rule instant flags, .dispatched press keys rule instant flags ∈ lines

def Loop.Writes (l m : Loop) (lines : List Incident) : Prop :=
  m.state.bare.journal = l.state.bare.journal ++ lines

theorem dispatchLines_ends (d : Deadline) (keys : List Key) (rule : Option Nat) (instant : Nat) (s : State) :
    d.EndsIn (dispatchLines rules keys rule instant s) := .inr (.inr ⟨_, _, _, _, _, List.mem_cons_self⟩)

theorem Deadline.EndsIn.append {d : Deadline} {lines : List Incident} (h : d.EndsIn lines) (more : List Incident) :
    d.EndsIn (more ++ lines) := by
  obtain h | h | ⟨press, keys, rule, instant, flags, h⟩ := h
  · exact .inl (List.mem_append_right _ h)
  · exact .inr (.inl (List.mem_append_right _ h))
  · exact .inr (.inr ⟨press, keys, rule, instant, flags, List.mem_append_right _ h⟩)

/-- A round takes deadlines away only with a line that tells so. -/
theorem Round.ends {l m : Loop} (h : Round rules l m) (ho : Orderly rules l.state) :
    ∃ lines, l.Writes m lines ∧ ∀ d ∈ l.state.deadlines, d ∉ m.state.deadlines → d.EndsIn lines := by
  cases h with
  | @fire s instant tasks d timer first due =>
    have kept : s.deadlines.Perm (d :: (Engine.fire rules s d timer).deadlines) :=
      ho.deadlines_fire (alarm_timer.1 first).2
    refine ⟨_, fire_journal rules s d timer, fun e he gone => ?_⟩
    rcases List.mem_cons.1 (kept.mem_iff.1 he) with rfl | still
    · refine .inl ?_
      cases timer <;> exact List.mem_cons_self
    · exact absurd still gone
  | @finish s instant tasks d b i first due complete =>
    obtain ⟨more, told⟩ : Grows s (handOver rules b i (s.note (.windowClosed d))) :=
      (note_grows rfl s).trans (handOver_grows rules b i _)
    refine ⟨more ++ dispatchLines rules (b.keys.map (·.1)) (some i) (b.lastKey s.now)
      (handOver rules b i (s.note (.windowClosed d))), ?_, fun e _ _ => (dispatchLines_ends e _ _ _ _).append more⟩
    rw [Loop.Writes, finish_eq, dispatch_journal, ← List.append_assoc, told]
    rfl
  | @flush s instant tasks d b first due incomplete =>
    obtain ⟨held, rfl⟩ := window_held first
    refine ⟨[.windowClosed b.deadline, .flushed b.keys.length], ?_, fun e he gone => ?_⟩
    · simp [Loop.Writes, State.bare, State.note, Incident.isSending]
    · rw [State.deadlines, held] at he
      rw [deadlines_free rfl] at gone
      rcases List.mem_append.1 he with still | closed
      · exact absurd still gone
      · rw [List.mem_singleton.1 closed]
        exact .inr (.inl List.mem_cons_self)
  | leave late => exact ⟨[], (List.append_nil _).symm, fun d hd gone => absurd hd gone⟩
  | @replay s k instant tasks =>
    rw [press_alone]
    exact ⟨_, dispatch_journal rules _ _ _ s, fun d _ _ => dispatchLines_ends d _ _ _ s⟩

/-- What has a deadline at first and none in the end loses it in one of the rounds. -/
theorem Rounds.leaves {n : Nat} {l e : Loop} (h : Rounds rules n l e) {d : Deadline} (set : d ∈ l.state.deadlines)
    (gone : d ∉ e.state.deadlines) :
    ∃ early late u v, Rounds rules early l u ∧ Round rules u v ∧ Rounds rules late v e ∧
      d ∈ u.state.deadlines ∧ d ∉ v.state.deadlines := by
  induction h with
  | refl => exact absurd set gone
  | @head n l m e first rest ih =>
    by_cases still : d ∈ m.state.deadlines
    · obtain ⟨early, late, u, v, before, round, after, set, gone⟩ := ih still gone
      exact ⟨early + 1, late, u, v, .head first before, round, after, set, gone⟩
    · exact ⟨0, n, l, m, .refl l, first, rest, set, still⟩

/-! ## The order in which timers fire -/

theorem firings_append (j more : List Incident) : firings (j ++ more) = firings j ++ firings more :=
  List.filterMap_append

theorem firings_fireLines (d : Deadline) (timer : Timer) : firings (fireLines d timer) = [d] := by
  cases timer with
  | countdown p => rfl
  | hold p => cases h : p.rule <;> simp [firings, fireLines, h]

theorem firings_dispatchLines (keys : List Key) (rule : Option Nat) (instant : Nat) (s : State) :
    firings (dispatchLines rules keys rule instant s) = [] := by
  refine List.filterMap_eq_nil_iff.2 fun l hl => ?_
  rcases List.mem_cons.1 hl with rfl | hl
  · rfl
  · rcases List.mem_append.1 hl with hl | hl
    · obtain ⟨c, -, rfl | rfl⟩ := endings_mem hl <;> rfl
    · obtain ⟨i, rfl⟩ := beginLines_mem rules hl
      rfl

/-- Whatever fires from here on comes after the deadline. -/
structure Loop.Follows (l : Loop) (d : Deadline) : Prop where
  deadlines : ∀ e ∈ l.state.deadlines, d.before e = true
  issued : d.serial ≤ l.state.serial
  bounded : d.instant ≤ lastInstant
  replays : ∀ k t, .replay k t ∈ l.tasks → d.instant ≤ t

theorem Loop.Follows.fewer {l m : Loop} {d : Deadline} (h : l.Follows d)
    (deadlines : m.state.deadlines ⊆ l.state.deadlines) (serial : l.state.serial ≤ m.state.serial)
    (tasks : m.tasks ⊆ l.tasks) : m.Follows d where
  deadlines e he := h.deadlines e (deadlines he)
  issued := Nat.le_trans h.issued serial
  bounded := h.bounded
  replays k t ht := h.replays k t (tasks ht)

theorem Deadline.before_of_ne {d e : Deadline} (h : e.before d = false) (differ : e ≠ d) : d.before e = true := by
  rw [Deadline.not_before] at h
  rw [Deadline.before_iff]
  have : ¬(e.instant = d.instant ∧ e.serial = d.serial) := fun ⟨hi, hs⟩ => differ (by
    cases d
    cases e
    cases hi
    cases hs
    rfl)
  omega

theorem Round.order {l m : Loop} (h : Round rules l m) (hl : l.Sound rules) (free : l.state.buffer = none) :
    m.state.buffer = none ∧ (∀ d, l.Follows d → m.Follows d) ∧
      ∃ lines, l.Writes m lines ∧
        (firings lines = [] ∨ ∃ d ∈ l.state.deadlines, firings lines = [d] ∧ m.Follows d) := by
  cases h with
  | @fire s instant tasks d timer first due =>
    have first' := (alarm_timer.1 first).2
    have kept : s.deadlines.Perm (d :: (Engine.fire rules s d timer).deadlines) := hl.orderly.deadlines_fire first'
    have still : ∀ e ∈ (Engine.fire rules s d timer).deadlines, e ∈ s.deadlines := fun e he =>
      kept.mem_iff.2 (List.mem_cons_of_mem d he)
    have serial : (Engine.fire rules s d timer).serial = s.serial := by
      obtain ⟨ps, cs, effect, -⟩ := fire_effect rules s d timer
      rw [← State.bare_serial, effect]
      rfl
    have set : d ∈ s.deadlines := kept.mem_iff.2 List.mem_cons_self
    have gone : d ∉ (Engine.fire rules s d timer).deadlines := (List.nodup_cons.1 (kept.nodup_iff.1 hl.timed.nodup)).1
    refine ⟨(fire_frame rules s d timer).1.trans free,
      fun e he => he.fewer still (Nat.le_of_eq serial.symm) (List.Subset.refl _),
      _, fire_journal rules s d timer, .inr ⟨d, set, firings_fireLines d timer, ?_, ?_, ?_, ?_⟩⟩
    · exact fun e he => Deadline.before_of_ne (alarm_least first e (still e he)) fun same => gone (same ▸ he)
    · exact serial ▸ hl.timed.issued d set
    · exact hl.timed.bounded d set
    · intro k t ht
      rcases List.mem_cons.1 ht with he | ht
      · cases he
      · exact Nat.le_trans due ((List.pairwise_cons.1 hl.sequenced).1 _ ht)
  | finish first due complete => cases free.symm.trans (window_held first).1
  | flush first due incomplete => cases free.symm.trans (window_held first).1
  | leave late =>
    exact ⟨free, fun d hd => hd.fewer (List.Subset.refl _) (Nat.le_refl _) (List.subset_cons_self _ _),
      [], (List.append_nil _).symm, .inl rfl⟩
  | @replay s k instant tasks =>
    rw [press_alone]
    obtain ⟨new, left, fresh⟩ := dispatch_deadlines rules [k] (findRule rules s k false) instant s
    refine ⟨(dispatch_frame rules _ _ _ s).1.trans free, fun d hd => ⟨fun e he => ?_, ?_, hd.bounded, ?_⟩,
      _, dispatch_journal rules _ _ _ s, .inl (firings_dispatchLines _ _ _ s)⟩
    · have free : s.buffer = none := free
      rw [left, free] at he
      obtain ⟨young, -, wait, at_key⟩ := fresh e (by simpa using he)
      have issued : d.serial ≤ s.serial := hd.issued
      have bounded := hd.bounded
      have in_time := hd.replays k instant List.mem_cons_self
      -- the new timer is due no earlier than its key went down, and its number is the youngest
      rw [Deadline.before_iff, at_key, after]
      omega
    · exact Nat.le_trans hd.issued (dispatch_renews rules _ _ _ s).1
    · exact fun j t ht => hd.replays j t (List.mem_cons_of_mem _ ht)

theorem Rounds.order {n : Nat} {l e : Loop} (h : Rounds rules n l e) (hl : l.Sound rules)
    (free : l.state.buffer = none) :
    ∃ lines, l.Writes e lines ∧ (firings lines).Pairwise (fun c d => c.before d = true) ∧
      ∀ d, l.Follows d → ∀ f ∈ firings lines, d.before f = true := by
  induction h with
  | refl => exact ⟨[], (List.append_nil _).symm, .nil, fun _ _ _ hf => (List.not_mem_nil hf).elim⟩
  | @head n l m e first rest ih =>
    obtain ⟨free', follows, lines, written, fired⟩ := first.order hl free
    obtain ⟨more, written', sorted, later⟩ := ih (first.sound hl) free'
    refine ⟨lines ++ more, ?_, ?_⟩
    · rw [Loop.Writes, written', written, List.append_assoc]
    · rw [firings_append]
      obtain none_fired | ⟨d, set, fires, next⟩ := fired
      · rw [none_fired]
        exact ⟨sorted, fun d hd => later d (follows d hd)⟩
      · rw [fires]
        refine ⟨List.pairwise_cons.2 ⟨later d next, sorted⟩, fun c hc f hf => ?_⟩
        rcases List.mem_cons.1 hf with rfl | hf
        · exact hc.deadlines f set
        · exact later c (follows c hc) f hf

/-! ## The whole loop -/

theorem Reachable.loop_sound {x : Session} (hx : Reachable rules x) (instant : Nat) :
    (⟨x.state, [.fireBy instant]⟩ : Loop).Sound rules := by
  refine ⟨hx.orderly, hx.timed, List.pairwise_singleton _ _, fun b held => ⟨?_, fun k t ht => ?_⟩⟩
  · have sorted := hx.sequenced.1
    rw [Session.instants_held held, List.map_append] at sorted
    exact (List.pairwise_append.1 sorted).1
  · cases List.mem_singleton.1 ht

theorem loop_weight (s : State) (instant : Nat) :
    (⟨s, [.fireBy instant]⟩ : Loop).weight ≤ s.timers.length + 3 * s.buffered.length + 3 := by
  rw [Loop.weight, State.timers_length]
  cases held : s.buffer with
  | none =>
    rw [State.buffered_of_none held]
    simp [Task.weight]
  | some b =>
    rw [State.buffered_of_some held]
    simp [Task.weight, Buffer.weight]
    omega

/-- From any moment of any run the loop goes on for so many rounds at most, and ends where the engine lets all fire that
is due: no countdown, hold timer or window is left with a deadline by then. Each that had one, at the start or later in
the loop, lost it in one of the rounds: it fired, its window closed, or a press began. While no buffer is held the
timers fire in the order of their deadlines, no two at the same one. -/
theorem timer_loop_complete {x : Session} (hx : Reachable rules x) (instant : Nat) :
    (∀ d ∈ (fireDue rules instant x.state).deadlines, instant < d.instant) ∧
    ∀ n l, Rounds rules n ⟨x.state, [.fireBy instant]⟩ l →
      (∃ left, n + left ≤ x.state.timers.length + 3 * x.state.buffered.length + 3 ∧
        Rounds rules left l ⟨fireDue rules instant x.state, []⟩) ∧
      (∀ d ∈ l.state.deadlines, d.instant ≤ instant → ∃ early late u v lines,
        Rounds rules early l u ∧ Round rules u v ∧ Rounds rules late v ⟨fireDue rules instant x.state, []⟩ ∧
        d ∈ u.state.deadlines ∧ d ∉ v.state.deadlines ∧ u.Writes v lines ∧ d.EndsIn lines) ∧
      (l.state.buffer = none → ∃ lines, l.Writes ⟨fireDue rules instant x.state, []⟩ lines ∧
        (firings lines).Pairwise fun c d => c.before d = true) := by
  have start := hx.loop_sound instant
  obtain ⟨total, all, late⟩ := rounds_fireDue instant [] hx.orderly
  have fired := late.deadlines
  refine ⟨fired, fun n l so_far => ?_⟩
  have sound := so_far.sound start
  obtain ⟨left, sum, rest⟩ := so_far.rest all rfl
  refine ⟨⟨left, ?_, rest⟩, fun d set due => ?_, fun free => ?_⟩
  · have weighed := all.weight start
    have bound := loop_weight x.state instant
    omega
  · have gone : d ∉ (fireDue rules instant x.state).deadlines := fun hd => by
      have := fired d hd
      omega
    obtain ⟨early, late, u, v, before, round, after, set, gone⟩ := rest.leaves set gone
    obtain ⟨lines, written, ends⟩ := round.ends (before.sound sound).orderly
    exact ⟨early, late, u, v, lines, before, round, after, set, gone, written, ends d set gone⟩
  · obtain ⟨lines, written, sorted, -⟩ := rest.order sound free
    exact ⟨lines, written, sorted⟩

end

/-- A chord of `a` and `b` with a wide window, and a rule for `a` alone with a short hold. -/
def overdueRules : List Manipulator := [
  { trigger := .together [keyA, keyB] .anyOrder 50 },
  { trigger := .ofKey keyA, holdThreshold := some 10 }]

/-- The first key of the chord is held back. -/
def overdueSession : Session := session overdueRules [.down keyA 0]

/-- The window closes, and the key goes down with a hold timer that is due long before. -/
theorem timer_loop_complete_overdue :
    overdueSession.state.deadlines = [⟨50, 1⟩] ∧
    firings (fireDue overdueRules 100 overdueSession.state).journal = [⟨10, 3⟩] ∧
    (∀ d ∈ (fireDue overdueRules 100 overdueSession.state).deadlines, 100 < d.instant) ∧
    (∃ left ≤ 6, Rounds overdueRules left ⟨overdueSession.state, [.fireBy 100]⟩
      ⟨fireDue overdueRules 100 overdueSession.state, []⟩) ∧
    ∃ early u v lines, Rounds overdueRules early ⟨overdueSession.state, [.fireBy 100]⟩ u ∧ Round overdueRules u v ∧
      u.Writes v lines ∧ Deadline.EndsIn ⟨50, 1⟩ lines := by
  obtain ⟨fired, rounds⟩ := timer_loop_complete (reachable_session overdueRules [.down keyA 0]).1 100
  obtain ⟨⟨left, bound, rest⟩, ends, -⟩ := rounds 0 _ (.refl _)
  have bound : 0 + left ≤ 6 := bound
  obtain ⟨early, -, u, v, lines, before, round, -, -, -, written, told⟩ :=
    ends ⟨50, 1⟩ List.mem_cons_self (by decide)
  exact ⟨rfl, rfl, fired, ⟨left, by omega, rest⟩, early, u, v, lines, before, round, written, told⟩

end KeyRules.Engine
