import KeyRules.Proofs.Engine.Deadlines
import KeyRules.Proofs.Engine.Slices
import Mathlib.Algebra.GroupWithZero.Nat

/-!
# The timer loop

Timers fire in a loop: as long as the first alarm is due, it rings. If that is the window of a buffer without a complete
candidate, the keys of the buffer go down one by one, and before each of them the loop runs up to the instant of the
key. Such a press starts a timer that may be due already, so neither the timers nor the time that is left get fewer. But
a press stops all timers before it starts its own, and a key of a buffer is pressed once: with a weight for each key
that is still to come, every round makes the loop lighter (`Round.weight`). It ends where `fireDue` does
(`rounds_fireDue`).
-/

namespace KeyRules.Engine

/-! ## Alarms -/

/-- What rings at a deadline. -/
inductive Alarm where
  | timer (t : Timer)
  | window (b : Buffer)

/-- The window of the buffer, if it closes before any timer fires. -/
def State.closesFirst? (s : State) : Option Buffer :=
  s.buffer.filter fun b => (earliest s.timers).all fun u => b.deadline.before u.1

/-- The alarm that rings first. A timer comes before the window at the same deadline. -/
def State.alarm? (s : State) : Option (Deadline × Alarm) :=
  match s.closesFirst? with
  | some b => some (b.deadline, .window b)
  | none => (earliest s.timers).map fun u => (u.1, .timer u.2)

section
variable {s : State} {d : Deadline} {t : Timer} {b : Buffer}

theorem closesFirst_iff : s.closesFirst? = some b ↔
    s.buffer = some b ∧ ∀ u, earliest s.timers = some u → b.deadline.before u.1 = true := by
  rw [State.closesFirst?, Option.filter_eq_some_iff, Option.all_eq_true]

theorem alarm_window : s.alarm? = some (d, .window b) ↔ s.closesFirst? = some b ∧ d = b.deadline := by
  unfold State.alarm?
  cases s.closesFirst? with
  | none => simp
  | some c =>
    simp only [Option.some.injEq, Prod.mk.injEq, Alarm.window.injEq]
    constructor
    · rintro ⟨rfl, rfl⟩
      exact ⟨rfl, rfl⟩
    · rintro ⟨rfl, rfl⟩
      exact ⟨rfl, rfl⟩

theorem alarm_timer : s.alarm? = some (d, .timer t) ↔ s.closesFirst? = none ∧ earliest s.timers = some (d, t) := by
  unfold State.alarm?
  cases s.closesFirst? with
  | some c => simp
  | none =>
    simp only [Option.map_eq_some_iff, Prod.mk.injEq, Alarm.timer.injEq, true_and]
    constructor
    · rintro ⟨u, first, rfl, rfl⟩
      exact first
    · exact fun first => ⟨_, first, rfl, rfl⟩

theorem alarm_of_timer (first : earliest s.timers = some (d, t))
    (early : ∀ b, s.buffer = some b → b.deadline.before d = false) : s.alarm? = some (d, .timer t) := by
  refine alarm_timer.2 ⟨?_, first⟩
  by_contra closes
  obtain ⟨b, closes⟩ := Option.ne_none_iff_exists'.1 closes
  obtain ⟨held, before⟩ := closesFirst_iff.1 closes
  have := before _ first
  rw [early b held] at this
  cases this

theorem Deadline.before_iff {d e : Deadline} :
    d.before e = true ↔ d.instant < e.instant ∨ d.instant = e.instant ∧ d.serial < e.serial := by
  rw [before, Bool.or_eq_true, Bool.and_eq_true, decide_eq_true_iff, decide_eq_true_iff, beq_iff_eq]

theorem alarm_least {a : Alarm} (first : s.alarm? = some (d, a)) : ∀ e ∈ s.deadlines, e.before d = false := by
  intro e he
  cases a with
  | timer t =>
    obtain ⟨waits, first⟩ := alarm_timer.1 first
    rcases mem_deadlines.1 he with ⟨timer, he⟩ | ⟨b, held, rfl⟩
    · exact earliest_least first _ he
    · have := Option.filter_eq_none_iff.1 waits b held
      rwa [first, Option.all_some, Bool.not_eq_true] at this
  | window b =>
    obtain ⟨closes, rfl⟩ := alarm_window.1 first
    obtain ⟨held, before⟩ := closesFirst_iff.1 closes
    rw [Deadline.not_before]
    rcases mem_deadlines.1 he with ⟨timer, he⟩ | ⟨c, held', rfl⟩
    · cases hu : earliest s.timers with
      | none =>
        rw [earliest_none hu] at he
        cases he
      | some u =>
        have closes := Deadline.before_iff.1 (before u hu)
        have least : e.before u.1 = false := earliest_least hu _ he
        rw [Deadline.not_before] at least
        omega
    · obtain rfl := Option.some.inj (held.symm.trans held')
      exact .inr ⟨rfl, Nat.le_refl _⟩

theorem alarm_none (silent : s.alarm? = none) : s.deadlines = [] := by
  unfold State.alarm? at silent
  cases closes : s.closesFirst? with
  | some c =>
    rw [closes] at silent
    cases silent
  | none =>
    rw [closes] at silent
    have silent : earliest s.timers = none := Option.map_eq_none_iff.1 silent
    have free : s.buffer = none := by
      refine Option.eq_none_iff_forall_not_mem.2 fun b held => ?_
      have := Option.filter_eq_none_iff.1 closes b held
      rw [silent] at this
      exact this rfl
    rw [deadlines_timers, earliest_none silent, free]
    rfl

/-- The first alarm rings after an instant, if there is one at all. -/
def State.RingsAfter (s : State) (instant : Nat) : Prop := ∀ d a, s.alarm? = some (d, a) → instant < d.instant

theorem State.RingsAfter.deadlines {instant : Nat} (h : s.RingsAfter instant) :
    ∀ e ∈ s.deadlines, instant < e.instant := by
  intro e he
  cases ha : s.alarm? with
  | none =>
    rw [alarm_none ha] at he
    cases he
  | some u =>
    have late := h u.1 u.2 ha
    have least := Deadline.not_before.1 (alarm_least ha e he)
    omega

end

/-! ## Rounds -/

inductive Task where
  /-- The timers due by an instant fire. -/
  | fireBy (instant : Nat)
  /-- A key goes down at its instant. -/
  | replay (k : Key) (instant : Nat)
  deriving DecidableEq, Repr

/-- What a flush leaves to do for a key. -/
def Task.ofKey (k : Key × Nat) : List Task := [fireBy k.2, replay k.1 k.2]

structure Loop where
  state : State
  /-- What is done first stands first. -/
  tasks : List Task

section
variable (rules : List Manipulator)

/-- One round of the loop. -/
inductive Round : Loop → Loop → Prop where
  /-- The first timer is due. -/
  | fire {s : State} {instant : Nat} {tasks : List Task} {d : Deadline} {timer : Timer}
      (first : s.alarm? = some (d, .timer timer)) (due : d.instant ≤ instant) :
    Round ⟨s, .fireBy instant :: tasks⟩ ⟨fire rules s d timer, .fireBy instant :: tasks⟩
  /-- The window closes, and the first complete candidate gets the keys. -/
  | finish {s : State} {instant : Nat} {tasks : List Task} {d : Deadline} {b : Buffer} {i : Nat}
      (first : s.alarm? = some (d, .window b)) (due : d.instant ≤ instant) (complete : complete? rules b = some i) :
    Round ⟨s, .fireBy instant :: tasks⟩ ⟨finish rules b i (s.note (.windowClosed d)), .fireBy instant :: tasks⟩
  /-- The window closes, and the keys are left to go down one by one. -/
  | flush {s : State} {instant : Nat} {tasks : List Task} {d : Deadline} {b : Buffer}
      (first : s.alarm? = some (d, .window b)) (due : d.instant ≤ instant) (incomplete : complete? rules b = none) :
    Round ⟨s, .fireBy instant :: tasks⟩
      ⟨{ s.note (.windowClosed d) with buffer := none }.note (.flushed b.keys.length),
        b.keys.flatMap Task.ofKey ++ .fireBy instant :: tasks⟩
  /-- Nothing is due any more. -/
  | leave {s : State} {instant : Nat} {tasks : List Task} (late : s.RingsAfter instant) :
    Round ⟨s, .fireBy instant :: tasks⟩ ⟨s, tasks⟩
  | replay {s : State} {k : Key} {instant : Nat} {tasks : List Task} :
    Round ⟨s, .replay k instant :: tasks⟩ ⟨press rules k instant false s, tasks⟩

inductive Rounds : Nat → Loop → Loop → Prop where
  | refl (l : Loop) : Rounds 0 l l
  | head {n : Nat} {l m e : Loop} (first : Round rules l m) (rest : Rounds n m e) : Rounds (n + 1) l e

end

section
variable {rules : List Manipulator}

theorem Rounds.trans {n n' : Nat} {l m e : Loop} (h : Rounds rules n l m) (h' : Rounds rules n' m e) :
    Rounds rules (n + n') l e := by
  induction h with
  | refl => rwa [Nat.zero_add]
  | head first rest ih => rw [Nat.add_right_comm]; exact .head first (ih h')

theorem Round.unique {l m m' : Loop} (h : Round rules l m) (h' : Round rules l m') : m = m' := by
  cases h with
  | fire first due =>
    cases h' with
    | fire first' due' =>
      cases first.symm.trans first'
      rfl
    | finish first' due' complete' => cases first.symm.trans first'
    | flush first' due' incomplete' => cases first.symm.trans first'
    | leave late => exact absurd due (Nat.not_le.2 (late _ _ first))
  | finish first due complete =>
    cases h' with
    | fire first' due' => cases first.symm.trans first'
    | finish first' due' complete' =>
      cases first.symm.trans first'
      cases complete.symm.trans complete'
      rfl
    | flush first' due' incomplete' =>
      cases first.symm.trans first'
      cases complete.symm.trans incomplete'
    | leave late => exact absurd due (Nat.not_le.2 (late _ _ first))
  | flush first due incomplete =>
    cases h' with
    | fire first' due' => cases first.symm.trans first'
    | finish first' due' complete' =>
      cases first.symm.trans first'
      cases complete'.symm.trans incomplete
    | flush first' due' incomplete' =>
      cases first.symm.trans first'
      rfl
    | leave late => exact absurd due (Nat.not_le.2 (late _ _ first))
  | leave late =>
    cases h' with
    | fire first due => exact absurd due (Nat.not_le.2 (late _ _ first))
    | finish first due complete => exact absurd due (Nat.not_le.2 (late _ _ first))
    | flush first due incomplete => exact absurd due (Nat.not_le.2 (late _ _ first))
    | leave late' => rfl
  | replay =>
    cases h'
    rfl

/-- Rounds from where a loop started lead on to where it ends. -/
theorem Rounds.rest {n total : Nat} {l m e : Loop} (h : Rounds rules n l m) (all : Rounds rules total l e)
    (idle : e.tasks = []) : ∃ left, n + left = total ∧ Rounds rules left m e := by
  induction h generalizing total with
  | refl => exact ⟨total, Nat.zero_add _, all⟩
  | @head n l k m first rest ih =>
    cases all with
    | refl =>
      cases first <;> cases idle
    | head first' rest' =>
      obtain rfl := first.unique first'
      obtain ⟨left, sum, more⟩ := ih rest'
      exact ⟨left, by omega, more⟩

/-! ## Weights -/

/-- A key that is left to do outweighs the timer that it may start. -/
def Task.weight : Task → Nat
  | fireBy _ => 1
  | replay _ _ => 2

/-- A buffer outweighs what its flush leaves to do. -/
def Buffer.weight (b : Buffer) : Nat := 3 * b.keys.length + 2

def Loop.weight (l : Loop) : Nat :=
  l.state.ticking + (l.state.buffer.map Buffer.weight).getD 0 + (l.tasks.map Task.weight).sum

theorem flush_weight (ks : List (Key × Nat)) :
    ((ks.flatMap Task.ofKey).map Task.weight).sum = 3 * ks.length := by
  induction ks with
  | nil => rfl
  | cons k ks ih =>
    rw [List.flatMap_cons, List.map_append, List.sum_append, ih, List.length_cons]
    show 3 + 3 * ks.length = 3 * (ks.length + 1)
    omega

theorem press_alone (k : Key) (instant : Nat) (s : State) :
    press rules k instant false s = dispatch rules [k] (findRule rules s k false) instant s := by
  unfold press
  cases found : findRule rules s k false with
  | none => rfl
  | some i =>
    simp only
    rw [findRule_single rules found, if_neg Bool.false_ne_true]

variable (rules) in
theorem ticking_dispatch (keys : List Key) (rule : Option Nat) (instant : Nat) (s : State) :
    (dispatch rules keys rule instant s).ticking ≤ 1 := by
  obtain ⟨new, left, -⟩ := dispatch_deadlines rules keys rule instant s
  have size := (dispatch rules keys rule instant s).deadlines_length
  rw [left, List.length_append, (dispatch_frame rules keys rule instant s).1] at size
  cases new <;> simp at size <;> omega

variable (rules) in
theorem ticking_finish (b : Buffer) (i : Nat) (s : State) : (finish rules b i s).ticking ≤ 1 := by
  rw [finish_eq]
  exact ticking_dispatch rules _ _ _ _

theorem window_held {s : State} {d : Deadline} {b : Buffer} (first : s.alarm? = some (d, .window b)) :
    s.buffer = some b ∧ d = b.deadline :=
  ⟨(closesFirst_iff.1 (alarm_window.1 first).1).1, (alarm_window.1 first).2⟩

/-- Every round makes the loop lighter. -/
theorem Round.weight {l m : Loop} (h : Round rules l m) (ho : Orderly rules l.state) : m.weight < l.weight := by
  cases h with
  | @fire s instant tasks d timer first due =>
    have fewer : (Engine.fire rules s d timer).ticking < s.ticking := ho.ticking_fire (alarm_timer.1 first).2
    simp only [Loop.weight, (fire_frame rules _ _ _).1]
    omega
  | @finish s instant tasks d b i first due complete =>
    have few := ticking_finish rules b i (s.note (.windowClosed d))
    simp only [Loop.weight, (finish_frame rules _ _ _).1, (window_held first).1, Option.map_none, Option.map_some,
      Option.getD_none, Option.getD_some, Buffer.weight]
    omega
  | @flush s instant tasks d b first due incomplete =>
    have same : ({ s.note (.windowClosed d) with buffer := none }.note (.flushed b.keys.length)).ticking = s.ticking :=
      rfl
    simp only [Loop.weight, same, (window_held first).1, Option.map_some, Option.getD_some, Buffer.weight,
      List.map_append, List.sum_append, flush_weight]
    show s.ticking + 0 + _ < _
    omega
  | leave late =>
    simp only [Loop.weight, List.map_cons, List.sum_cons, Task.weight]
    omega
  | @replay s k instant tasks =>
    have few := ticking_dispatch rules [k] (findRule rules s k false) instant s
    simp only [Loop.weight, press_alone, (dispatch_frame rules _ _ _ _).1, List.map_cons, List.sum_cons, Task.weight]
    omega

/-! ## What every round keeps -/

/-- A loop goes on before a key that went down at this instant or later. -/
def Task.precedes : Task → Task → Prop
  | fireBy t, replay _ u => t ≤ u
  | _, _ => True

variable (rules) in
/-- A moment of the loop. The keys that are left to do went down one after the other. -/
structure Loop.Sound (l : Loop) : Prop where
  orderly : Orderly rules l.state
  timed : Timed l.state
  sequenced : l.tasks.Pairwise Task.precedes
  buffered : ∀ b, l.state.buffer = some b →
    (b.keys.map (·.2)).Pairwise (· ≤ ·) ∧ ∀ k t, .replay k t ∉ l.tasks

theorem Task.mem_flush {ks : List (Key × Nat)} {t : Task} (h : t ∈ ks.flatMap ofKey) :
    ∃ k ∈ ks, t = fireBy k.2 ∨ t = replay k.1 k.2 := by
  obtain ⟨k, hk, ht⟩ := List.mem_flatMap.1 h
  exact ⟨k, hk, by simpa [ofKey] using ht⟩

theorem flush_sequenced {ks : List (Key × Nat)} (sorted : (ks.map (·.2)).Pairwise (· ≤ ·)) :
    (ks.flatMap Task.ofKey).Pairwise Task.precedes := by
  induction ks with
  | nil => exact .nil
  | cons k ks ih =>
    obtain ⟨first, sorted⟩ := List.pairwise_cons.1 sorted
    refine List.pairwise_cons.2 ⟨fun t ht => ?_, List.pairwise_cons.2 ⟨fun _ _ => trivial, ih sorted⟩⟩
    rcases List.mem_cons.1 ht with rfl | ht
    · exact Nat.le_refl _
    · obtain ⟨j, hj, rfl | rfl⟩ := Task.mem_flush ht
      · trivial
      · exact first _ (List.mem_map_of_mem hj)

theorem Round.orderly {l m : Loop} (h : Round rules l m) (ho : Orderly rules l.state) : Orderly rules m.state := by
  cases h with
  | fire first due => exact Orderly.fire ho _ _
  | finish first due complete => exact Orderly.finish (Orderly.note ho _) _ _
  | flush first due incomplete => exact Orderly.congr ho rfl rfl rfl
  | leave late => exact ho
  | replay =>
    rw [press_alone]
    exact Orderly.dispatch ho _ _ _

theorem Round.timed {l m : Loop} (h : Round rules l m) (ho : Orderly rules l.state) (ht : Timed l.state) :
    Timed m.state := by
  cases h with
  | fire first due => exact ho.fire_timed ht (alarm_timer.1 first).2
  | finish first due complete => exact Timed.finish (Timed.note ht _) _ _
  | flush first due incomplete => exact ht.free.same rfl rfl
  | leave late => exact ht
  | replay =>
    rw [press_alone]
    exact ht.renews (dispatch_renews rules _ _ _ _)

theorem Round.sound {l m : Loop} (h : Round rules l m) (hl : l.Sound rules) : m.Sound rules := by
  refine ⟨h.orderly hl.orderly, h.timed hl.orderly hl.timed, ?_, ?_⟩
  · have sequenced := hl.sequenced
    cases h with
    | fire first due => exact sequenced
    | finish first due complete => exact sequenced
    | flush first due incomplete =>
      obtain ⟨sorted, idle⟩ := hl.buffered _ (window_held first).1
      refine List.pairwise_append.2 ⟨flush_sequenced sorted, sequenced, fun t ht u hu => ?_⟩
      obtain ⟨k, -, rfl | rfl⟩ := Task.mem_flush ht
      · cases u with
        | fireBy instant => trivial
        | replay k instant => exact absurd hu (idle k instant)
      · trivial
    | leave late => exact (List.pairwise_cons.1 sequenced).2
    | replay => exact (List.pairwise_cons.1 sequenced).2
  · have buffered := hl.buffered
    intro b held
    cases h with
    | fire first due => exact buffered b ((fire_frame rules _ _ _).1.symm.trans held)
    | finish first due complete =>
      rw [(finish_frame rules _ _ _).1] at held
      cases held
    | flush first due incomplete => cases held
    | leave late =>
      obtain ⟨sorted, idle⟩ := buffered b held
      exact ⟨sorted, fun k t ht => idle k t (List.mem_cons_of_mem _ ht)⟩
    | replay => exact absurd List.mem_cons_self ((buffered b (press_buffer.symm.trans held)).2 _ _)

theorem Rounds.sound {n : Nat} {l m : Loop} (h : Rounds rules n l m) (hl : l.Sound rules) : m.Sound rules := by
  induction h with
  | refl => exact hl
  | head first rest ih => exact ih (first.sound hl)

theorem Rounds.weight {n : Nat} {l m : Loop} (h : Rounds rules n l m) (hl : l.Sound rules) :
    n + m.weight ≤ l.weight := by
  induction h with
  | refl => exact Nat.le_of_eq (Nat.zero_add _)
  | head first rest ih =>
    have lighter := first.weight hl.orderly
    have := ih (first.sound hl)
    omega

theorem Rounds.orderly {n : Nat} {l m : Loop} (h : Rounds rules n l m) (ho : Orderly rules l.state) :
    Orderly rules m.state := by
  induction h with
  | refl => exact ho
  | head first rest ih => exact ih (first.orderly ho)

/-! ## The end of the loop -/

section
variable {s : State} {instant : Nat} {tasks : List Task}

theorem rounds_settle (instant : Nat) (tasks : List Task) (isDue : Deadline → Bool) (ho : Orderly rules s)
    (rings : ∀ d, isDue d = true → d.instant ≤ instant ∧ ∀ b, s.buffer = some b → b.deadline.before d = false) :
    ∃ n, Rounds rules n ⟨s, .fireBy instant :: tasks⟩ ⟨settle rules isDue s, .fireBy instant :: tasks⟩ := by
  -- by induction on the timers that run, of which a round takes one away
  induction hn : s.ticking using Nat.strongRecOn generalizing s with
  | ind n ih =>
    cases first : earliest s.timers with
    | none =>
      rw [settle_of_timers_nil (earliest_none first)]
      exact ⟨0, .refl _⟩
    | some u =>
      obtain ⟨d, timer⟩ := u
      cases due : isDue d with
      | false =>
        rw [settle_of_early first due]
        exact ⟨0, .refl _⟩
      | true =>
        obtain ⟨in_time, before_window⟩ := rings d due
        have same := (fire_frame rules s d timer).1
        rw [ho.settle_of_due first due]
        obtain ⟨rest, rounds⟩ := ih _ (hn ▸ ho.ticking_fire first) (ho.fire d timer)
          (fun e he => ⟨(rings e he).1, fun b held => (rings e he).2 b (same.symm.trans held)⟩) rfl
        exact ⟨rest + 1, .head (.fire (alarm_of_timer first before_window) in_time) rounds⟩

/-- Before a window closes the loop is left as soon as no timer is due. -/
theorem rounds_settleBy (instant : Nat) (tasks : List Task) (ho : Orderly rules s)
    (later : ∀ b, s.buffer = some b → instant < b.deadline.instant) :
    ∃ n, Rounds rules n ⟨s, .fireBy instant :: tasks⟩ ⟨settleBy rules instant s, tasks⟩ ∧
      (settleBy rules instant s).RingsAfter instant := by
  have late : (settleBy rules instant s).RingsAfter instant := by
    intro d a first
    cases a with
    | timer t => exact settleBy_timers ho instant _ (earliest_mem (alarm_timer.1 first).2)
    | window b =>
      obtain ⟨held, rfl⟩ := window_held first
      exact later b ((settle_buffer rules _ s).symm.trans held)
  obtain ⟨n, rounds⟩ := rounds_settle instant tasks (·.instant ≤ instant) ho
    fun d due => ⟨of_decide_eq_true due, fun b held => by
      have := of_decide_eq_true due
      have := later b held
      rw [Deadline.not_before]
      omega⟩
  exact ⟨_, rounds.trans (.head (.leave late) (.refl _)), late⟩

/-- The keys of a buffer that is gone go down one by one. -/
theorem rounds_replays (tasks : List Task) (ks : List (Key × Nat)) (ho : Orderly rules s) (free : s.buffer = none) :
    ∃ n, Rounds rules n ⟨s, ks.flatMap Task.ofKey ++ tasks⟩ ⟨ks.foldl (replay rules) s, tasks⟩ := by
  induction ks generalizing s with
  | nil => exact ⟨0, .refl _⟩
  | cons k ks ih =>
    obtain ⟨n, fired, -⟩ := rounds_settleBy k.2 (.replay k.1 k.2 :: (ks.flatMap Task.ofKey ++ tasks)) ho
      fun b held => by cases free.symm.trans held
    have pressed : Rounds rules (n + 1) ⟨s, (k :: ks).flatMap Task.ofKey ++ tasks⟩
        ⟨replay rules s k, ks.flatMap Task.ofKey ++ tasks⟩ := fired.trans (.head .replay (.refl _))
    obtain ⟨rest, rounds⟩ := ih (pressed.orderly ho) (press_buffer.trans ((settle_buffer rules _ s).trans free))
    exact ⟨_, pressed.trans rounds⟩

theorem rounds_closeWindow (tasks : List Task) (ho : Orderly rules s) {b : Buffer}
    (first : s.alarm? = some (b.deadline, .window b))
    (due : b.deadline.instant ≤ instant) :
    ∃ n, Rounds rules n ⟨s, .fireBy instant :: tasks⟩ ⟨closeWindow rules b s, .fireBy instant :: tasks⟩ := by
  unfold closeWindow
  cases complete : complete? rules b with
  | some i => exact ⟨1, .head (.finish first due complete) (.refl _)⟩
  | none =>
    have flushed : Round rules ⟨s, .fireBy instant :: tasks⟩ _ := .flush first due complete
    obtain ⟨n, rounds⟩ := rounds_replays (.fireBy instant :: tasks) b.keys (flushed.orderly ho) rfl
    exact ⟨n + 1, .head flushed rounds⟩

/-- The loop ends where the engine lets all fire that is due. -/
theorem rounds_fireDue (instant : Nat) (tasks : List Task) (ho : Orderly rules s) :
    ∃ n, Rounds rules n ⟨s, .fireBy instant :: tasks⟩ ⟨fireDue rules instant s, tasks⟩ ∧
      (fireDue rules instant s).RingsAfter instant := by
  cases held : s.buffer with
  | none =>
    rw [fireDue_free held]
    exact rounds_settleBy instant tasks ho fun b hb => by cases held.symm.trans hb
  | some b =>
    rcases Nat.lt_or_ge instant b.deadline.instant with early | due
    · rw [fireDue_open held early]
      exact rounds_settleBy instant tasks ho fun c hc => by
        cases held.symm.trans hc
        exact early
    · rw [fireDue_closes held due]
      -- first the timers up to the window, then the window, and last what its keys leave due
      obtain ⟨n, fired⟩ := rounds_settle instant tasks (fun d => !b.deadline.before d) ho fun d before => by
          rw [Bool.not_eq_true'] at before
          refine ⟨?_, fun c hc => ?_⟩
          · have := Deadline.not_before.1 before
            omega
          · cases held.symm.trans hc
            exact before
      have still := (settle_buffer rules (fun d => !b.deadline.before d) s).trans held
      have first : (settle rules (fun d => !b.deadline.before d) s).alarm? = some (b.deadline, .window b) :=
        alarm_window.2 ⟨closesFirst_iff.2 ⟨still, fun u hu => by simpa using settle_earliest ho _ u hu⟩, rfl⟩
      obtain ⟨n', closed⟩ := rounds_closeWindow tasks (fired.orderly ho) first due
      have so_far := fired.trans closed
      obtain ⟨n'', settled, late⟩ := rounds_settleBy instant tasks (so_far.orderly ho)
        fun c hc => by
          rw [closeWindow_buffer still] at hc
          cases hc
      exact ⟨_, so_far.trans settled, late⟩

end

end

end KeyRules.Engine
