import KeyRules.Proofs.Engine.Presses
import Mathlib.Data.List.Count

/-!
# Timers that fire

Firing a timer takes its deadline away and no other one (`Orderly.deadlines_fire`), so as many rounds as there are
timers fire every timer that is due (`settle_earliest`). The countdown of a delayed action is due one delay after its
press ended (`Reachable.due`).
-/

namespace KeyRules.Engine

section
variable {rules : List Manipulator}

/-! ## Firing all that is due -/

theorem earliest_none {ts : List (Deadline × Timer)} (h : earliest ts = none) : ts = [] := by
  cases ts with
  | nil => rfl
  | cons t ts =>
    simp only [earliest] at h
    split at h
    · cases h
    · split at h <;> cases h

theorem Deadline.not_before {d e : Deadline} :
    d.before e = false ↔ e.instant < d.instant ∨ e.instant = d.instant ∧ e.serial ≤ d.serial := by
  rw [before, Bool.or_eq_false_iff, Bool.and_eq_false_iff, decide_eq_false_iff_not, decide_eq_false_iff_not,
    beq_eq_false_iff_ne]
  omega

/-- No timer comes before the one that fires first. -/
theorem earliest_least {ts : List (Deadline × Timer)} {t : Deadline × Timer} (h : earliest ts = some t) :
    ∀ u ∈ ts, u.1.before t.1 = false := by
  simp only [Deadline.not_before]
  induction ts generalizing t with
  | nil => cases h
  | cons u us ih =>
    simp only [earliest] at h
    cases he : earliest us with
    | none =>
      rw [he] at h
      cases h
      obtain rfl := earliest_none he
      intro v hv
      obtain rfl := List.mem_singleton.1 hv
      exact .inr ⟨rfl, Nat.le_refl _⟩
    | some v =>
      rw [he] at h
      simp only at h
      have hv := ih he
      intro w hw
      split at h
      · rename_i hb
        cases h
        rcases List.mem_cons.1 hw with rfl | hw
        · simp only [Deadline.before, Bool.or_eq_true, decide_eq_true_eq, Bool.and_eq_true, beq_iff_eq] at hb
          omega
        · exact hv w hw
      · rename_i hb
        cases h
        rcases List.mem_cons.1 hw with rfl | hw
        · exact .inr ⟨rfl, Nat.le_refl _⟩
        · have := hv w hw
          rw [Bool.not_eq_true, Deadline.not_before] at hb
          omega

theorem earliest_le {ts : List (Deadline × Timer)} {t : Deadline × Timer} (h : earliest ts = some t) :
    ∀ u ∈ ts, t.1.instant ≤ u.1.instant := fun u hu => by
  have := Deadline.not_before.1 (earliest_least h u hu)
  omega

def State.ticking (s : State) : Nat :=
  s.pending.countP (·.deadline.isSome) + s.presses.countP (·.holdTimer.isSome)

theorem State.timers_length (s : State) : s.timers.length = s.ticking := by
  simp only [timers, ticking, List.length_append, List.countP_eq_length_filter]
  congr 1
  · induction s.pending with
    | nil => rfl
    | cons d ds ih => cases h : d.deadline <;> simp [h, ih]
  · induction s.presses with
    | nil => rfl
    | cons p ps ih => cases h : p.holdTimer <;> simp [h, ih]

theorem ticking_bare (s : State) : s.bare.ticking = s.ticking := by
  simp [State.ticking, List.countP_map, Function.comp_def, Press.bare]

/-! ## Deadlines -/

/-- When the countdowns, the hold timers and the window that run are due. -/
def State.deadlines (s : State) : List Deadline :=
  s.pending.filterMap (·.deadline) ++ s.presses.filterMap (·.holdTimer) ++ (s.buffer.map (·.deadline)).toList

theorem deadlines_bare (s : State) : s.bare.deadlines = s.deadlines := by
  simp only [State.deadlines, State.bare_presses, List.filterMap_map]
  rfl

theorem deadlines_timers (s : State) :
    s.deadlines = s.timers.map (·.1) ++ (s.buffer.map (·.deadline)).toList := by
  have running : ∀ {α : Type} (f : α → Option Deadline) (g : α → Timer) (l : List α),
      (l.filterMap fun a => (f a).map (·, g a)).map (·.1) = l.filterMap f := by
    intro α f g l
    rw [List.map_filterMap]
    refine List.filterMap_congr fun a _ => ?_
    rw [Option.map_map]
    exact congrFun Option.map_id (f a)
  rw [State.timers, List.map_append, running, running, State.deadlines]

theorem mem_deadlines {s : State} {d : Deadline} :
    d ∈ s.deadlines ↔ (∃ timer, (d, timer) ∈ s.timers) ∨ ∃ b, s.buffer = some b ∧ b.deadline = d := by
  simp [deadlines_timers]

theorem State.deadlines_length (s : State) :
    s.deadlines.length = s.ticking + (s.buffer.map (·.deadline)).toList.length := by
  rw [deadlines_timers, List.length_append, List.length_map, timers_length]

/-- Taking away what has no value leaves the values. -/
theorem filterMap_filter_none {α β : Type} {f : α → Option β} {p : α → Bool} {l : List α}
    (none_lost : ∀ a ∈ l, p a = false → f a = none) : (l.filter p).filterMap f = l.filterMap f := by
  rw [List.filterMap_filter]
  refine List.filterMap_congr fun a ha => ?_
  cases hp : p a with
  | true => rfl
  | false => exact (none_lost a ha hp).symm

/-- A countdown that ends takes its deadline away. -/
theorem Orderly.deadlines_countdown {s : State} (h : Orderly rules s) {p : Pending} (hp : p ∈ s.pending)
    {d : Deadline} (runs : p.deadline = some d) : s.deadlines.Perm (d :: (s.forgetPending p.press).deadlines) := by
  have split := (perm_cons_filter h.pending_nodup hp).filterMap (·.deadline)
  rw [List.filterMap_cons_some runs] at split
  exact (split.append_right _).append_right _

theorem Orderly.deadlines_hold {s : State} (h : Orderly rules s) {p : Press} (hp : p ∈ s.presses) {d : Deadline}
    (timer : p.holdTimer = some d) : s.deadlines.Perm (d :: (s.updatePress p.id Press.fired).deadlines) := by
  have before := (perm_cons_filter h.presses_nodup hp).filterMap (·.holdTimer)
  have later := (perm_updatePress h.presses_nodup hp Press.fired).filterMap (·.holdTimer)
  have stopped : p.fired.holdTimer = none := rfl
  rw [List.filterMap_cons_some timer] at before
  rw [List.filterMap_cons_none stopped] at later
  have split : (s.presses.filterMap (·.holdTimer)).Perm
      (d :: (s.updatePress p.id Press.fired).presses.filterMap (·.holdTimer)) := before.trans (later.symm.cons d)
  exact ((split.append_left _).trans List.perm_middle).append_right _

/-- No countdown runs for a press in flight. -/
theorem Orderly.deadlines_forget {s : State} (h : Orderly rules s) {id : Nat} (flies : id ∈ s.ids) :
    (s.forgetPending id).deadlines = s.deadlines := by
  have kept : (s.forgetPending id).pending.filterMap (·.deadline) = s.pending.filterMap (·.deadline) := by
    refine filterMap_filter_none fun c hc gone => (h.resting_iff c hc).2 ?_
    rw [bne_eq_false_iff_eq] at gone
    exact gone ▸ flies
  rw [State.deadlines, kept]
  rfl

/-- The timer that fires takes away its own deadline alone. -/
theorem Orderly.deadlines_fire {s : State} (h : Orderly rules s) {d : Deadline} {timer : Timer}
    (first : earliest s.timers = some (d, timer)) :
    s.deadlines.Perm (d :: (Engine.fire rules s d timer).deadlines) := by
  have hb := orderly_bare.2 (h.note (.fired d))
  have start : s.deadlines = (s.note (.fired d)).bare.deadlines := (deadlines_bare (s.note (.fired d))).symm
  rw [start, ← deadlines_bare (Engine.fire rules s d timer)]
  obtain ⟨p, hp, runs, rfl⟩ | ⟨p, hp, timer, rfl⟩ := earliest_timers first
  · rw [Engine.fire, bare_fireCountdown]
    exact hb.deadlines_countdown hp runs
  · have hm : p.bare ∈ (s.note (.fired d)).bare.presses := List.mem_map_of_mem hp
    have stopped := hb.deadlines_hold hm timer
    rw [Engine.fire]
    cases hr : p.rule with
    | none =>
      rw [bare_fireHold_plain rules _ hr]
      exact stopped
    | some i =>
      rw [bare_fireHold rules _ hr]
      split
      · have hu := (hb.updatePress (f := Press.fired) (fun _ => ⟨rfl, rfl⟩) p.id).note (.emitted p.id i .hold)
        have flies : p.id ∈ (((s.note (.fired d)).bare.updatePress p.id Press.fired).note
            (.emitted p.id i .hold)).ids := by
          show p.id ∈ ((s.note (.fired d)).bare.updatePress p.id Press.fired).presses.map (·.id)
          rw [State.updatePress_ids (f := Press.fired) fun _ => rfl]
          exact List.mem_map.2 ⟨p.bare, hm, rfl⟩
        rw [hu.deadlines_forget flies]
        exact stopped
      · exact stopped

/-- Firing takes a timer away and starts none. -/
theorem Orderly.ticking_fire {s : State} (h : Orderly rules s) {d : Deadline} {timer : Timer}
    (first : earliest s.timers = some (d, timer)) : (Engine.fire rules s d timer).ticking < s.ticking := by
  have fewer := (h.deadlines_fire first).length_eq
  rw [List.length_cons, State.deadlines_length, State.deadlines_length, (fire_frame rules s d timer).1] at fewer
  omega

/-! ## Rounds -/

/-- After enough rounds the first timer, if one is left, is not due. -/
theorem fireWhile_earliest (isDue : Deadline → Bool) (n : Nat) :
    ∀ {s : State}, Orderly rules s → s.ticking ≤ n →
      ∀ u, earliest (fireWhile rules isDue n s).timers = some u → isDue u.1 = false := by
  induction n with
  | zero =>
    intro s _ hn u hu
    have hz : s.timers = [] := List.length_eq_zero_iff.1 (by have := s.timers_length; omega)
    have hu : earliest s.timers = some u := hu
    rw [hz] at hu
    cases hu
  | succ n ih =>
    intro s h hn u hu
    simp only [fireWhile] at hu
    split at hu
    · rename_i silent
      cases silent.symm.trans hu
    · rename_i d timer first
      split at hu
      · have hf := h.ticking_fire first
        exact ih (h.fire d timer) (by omega) u hu
      · rename_i late
        cases first.symm.trans hu
        exact Bool.eq_false_iff.2 late

theorem settle_earliest {s : State} (h : Orderly rules s) (isDue : Deadline → Bool) :
    ∀ u, earliest (settle rules isDue s).timers = some u → isDue u.1 = false :=
  fireWhile_earliest isDue _ h (Nat.le_of_eq s.timers_length.symm)

/-- After the timers due by an instant fired, every one that is left is due later. -/
theorem settleBy_timers {s : State} (h : Orderly rules s) (instant : Nat) :
    ∀ e ∈ (settleBy rules instant s).timers, instant < e.1.instant := by
  intro e he
  cases first : earliest (settleBy rules instant s).timers with
  | none =>
    rw [earliest_none first] at he
    cases he
  | some u =>
    have late := of_decide_eq_false (settle_earliest h _ u first)
    exact Nat.lt_of_lt_of_le (Nat.not_le.1 late) (earliest_le first e he)

theorem Reachable.advanceTo_timers {x : Session} (hx : Reachable rules x) (idle : x.waiting = []) (instant : Nat) :
    ∀ e ∈ (Engine.advanceTo rules instant x.state).timers, instant < e.1.instant := by
  have ht := hx.tick idle instant
  have hn : instant ≤ (x.state.tick instant).now := Nat.le_max_right _ _
  have settled : ∀ {s : State}, Orderly rules s →
      ∀ e ∈ (settleBy rules (x.state.tick instant).now s).timers, instant < e.1.instant :=
    fun hs e he => Nat.lt_of_le_of_lt hn (settleBy_timers hs _ e he)
  unfold Engine.advanceTo fireDue
  simp only
  split
  · exact settled ht.orderly
  · rename_i b held
    split
    · rename_i due
      have hs := ht.moves (moves_settle (fun d => !b.deadline.before d) _)
      exact settled (hs.moves (moves_closeWindow rules (by rw [settle_buffer]; exact held)
        (by rw [settle_now]; exact due) idle)).orderly
    · exact settled ht.orderly

/-! ## When countdowns are due -/

theorem fire_pending (s : State) (d : Deadline) (timer : Timer) :
    (fire rules s d timer).pending.Sublist s.pending := by
  obtain ⟨ps, cs, h, -, sub⟩ := fire_effect rules s d timer
  rw [← State.bare_pending, h]
  exact sub

theorem release_pending {s : State} {k : Key} {instant : Nat} {c : Pending}
    (hc : c ∈ (release rules k instant s).pending) : ∃ d ∈ s.pending, c.owners = d.owners ∧ c.rule = d.rule := by
  obtain ⟨ps, cs, n, h, -, kept⟩ := release_effect rules k instant s
  rw [← State.bare_pending, h] at hc
  obtain hc | ⟨d, hd, e, rfl⟩ := kept c hc
  · exact ⟨c, hc, rfl, rfl⟩
  · exact ⟨d, hd, rfl, rfl⟩

theorem dispatch_pending {s : State} {keys : List Key} {rule : Option Nat} {instant : Nat} {c : Pending}
    (hc : c ∈ (dispatch rules keys rule instant s).pending) :
    c ∈ s.pending ∨ c.owners = keys ∧ rule = some c.rule := by
  obtain ⟨p, cs, n, h, -, -, -, -, added⟩ := dispatch_effect rules keys rule instant s
  rw [← State.bare_pending, h] at hc
  rcases List.mem_append.1 hc with hc | hc
  · exact .inl (List.mem_filter.1 hc).1
  · exact .inr (added c hc).2

theorem dispatch_rests (keys : List Key) (rule : Option Nat) (instant : Nat) (s : State) :
    ∀ d ∈ (dispatch rules keys rule instant s).pending, d.deadline = none := by
  obtain ⟨p, cs, n, h, -, -, -, -, added⟩ := dispatch_effect rules keys rule instant s
  intro d hd
  rw [← State.bare_pending, h] at hd
  rcases List.mem_append.1 hd with hd | hd
  · exact resting_rests hd
  · exact (added d hd).1

variable (rules) in
/-- Every countdown that runs is due one delay of its rule after one of the releases. -/
def Dated (releases : List Nat) (s : State) : Prop :=
  ∀ d ∈ s.pending, ∀ e, d.deadline = some e →
    ∃ r ∈ releases, ∃ m l, rules[d.rule]? = some m ∧ m.delayed = some l ∧ e.instant = after r l.delay.toNat

theorem Dated.mono {releases more : List Nat} {s t : State} (h : Dated rules releases s)
    (hp : ∀ d ∈ t.pending, d.deadline.isSome = true → d ∈ s.pending) (hr : releases ⊆ more) :
    Dated rules more t := by
  intro d hd e he
  obtain ⟨r, hm, rest⟩ := h d (hp d hd (by rw [he]; rfl)) e he
  exact ⟨r, hr hm, rest⟩

theorem Dated.startCountdown {releases : List Nat} {s t : State} (h : Dated rules releases s)
    (ho : Orderly rules s) (ht : t.pending = s.pending) {p : Press} (hp : p ∈ s.presses) {i : Nat}
    (hr : p.rule = some i) {m : Manipulator} (hm : rules[i]? = some m) (instant : Nat) :
    Dated rules (releases ++ [instant]) (startCountdown p.id m instant t) := by
  intro d hd e he
  obtain ⟨hd, -⟩ | ⟨c, hc, l, n, hl, hid, -, rfl⟩ := startCountdown_mem hd
  · obtain ⟨r, hm, rest⟩ := h d (ht ▸ hd) e he
    exact ⟨r, List.mem_append_left _ hm, rest⟩
  · obtain rfl := Option.some.inj he
    have hi := ho.rule_eq c (ht ▸ hc) p hp hid.symm
    rw [hr, Option.some.injEq] at hi
    subst hi
    exact ⟨instant, List.mem_append_right _ (List.mem_singleton.2 rfl), m, l, hm, hl, rfl⟩

theorem Dated.release {releases : List Nat} {s : State} (h : Dated rules releases s) (ho : Orderly rules s)
    (k : Key) (instant : Nat) : Dated rules (releases ++ [instant]) (release rules k instant s) := by
  have same : ∀ {t : State}, t.pending.Sublist s.pending → Dated rules (releases ++ [instant]) t := fun ht =>
    h.mono (fun d hd _ => ht.subset hd) (List.subset_append_left _ _)
  cases hk : s.holder? k with
  | none =>
    rw [release_none rules hk]
    exact same (.refl _)
  | some p =>
    have hp : p.bare ∈ s.bare.presses := List.mem_map_of_mem (holder_mem hk).1
    have hb : Dated rules (releases ++ [instant]) (Engine.release rules k instant s).bare := by
      rw [bare_release rules hk]
      split
      · obtain ⟨i, m, hr, hm⟩ | hr := rule_cases rules p.rule
        · have hc : ∀ t : State, t.pending = s.pending →
              Dated rules (releases ++ [instant]) (Engine.startCountdown p.id m instant t) := fun t ht =>
            h.startCountdown (p := p) ho ht (holder_mem hk).1 hr hm instant
          rw [bare_endPress_rule rules hr hm]
          unfold settled
          cases isTap m p instant with
          | false => exact hc _ rfl
          | true =>
            simp only [Bool.true_and, if_true]
            split
            · exact same List.filter_sublist
            · exact hc _ rfl
        · rw [bare_endPress_plain rules hr]
          exact same (.refl _)
      · exact same (.refl _)
    exact hb

theorem Reachable.due {x : Session} (h : Reachable rules x) : Dated rules x.releases x.state := by
  induction h with
  | start => exact fun d hd => (List.not_mem_nil hd).elim
  | @move x y hx step ih =>
    have hrel : y.releases = x.releases := by cases step <;> rfl
    rw [hrel]
    refine ih.mono (fun d hd hs => ?_) (List.Subset.refl _)
    have absurd_rests : ∀ {t : State}, (∀ d ∈ t.pending, d.deadline = none) → d ∈ t.pending → d ∈ x.state.pending :=
      fun hn hd => by
        rw [hn d hd] at hs
        cases hs
    cases step with
    | fire first => exact (fire_pending _ _ _).subset hd
    | dispatch simultaneous free oldest once single => exact absurd_rests (dispatch_rests _ _ _ _) hd
    | holdBack free oldest found together => exact hd
    | join held oldest narrowed some_left => exact hd
    | close held due => exact hd
    | finish held idle first ready =>
      simp only [finish_eq] at hd
      exact absurd_rests (dispatch_rests _ _ _ _) hd
    | flush held => exact hd
  | @tick x _ _ instant ih =>
    obtain ⟨more, ht, -⟩ := x.state.tick_eq instant
    rw [ht]
    exact ih
  | accept _ _ _ ih => exact ih
  | refuse _ _ _ ih => exact ih
  | release hx _ _ ih => exact ih.release hx.orderly _ _
  | take _ _ ih => exact ih

/-- Once no press is in flight and every countdown is over, no delayed action is left. -/
theorem Reachable.pending_over {x : Session} (h : Reachable rules x) (up : x.state.presses = []) {instant : Nat}
    (fired : ∀ e ∈ x.state.timers, instant < e.1.instant)
    (past : ∀ r ∈ x.releases, ∀ m ∈ rules, ∀ l, m.delayed = some l → after r l.delay.toNat ≤ instant) :
    x.state.pending = [] := by
  refine List.eq_nil_iff_forall_not_mem.2 fun d hd => ?_
  cases hl : d.deadline with
  | none =>
    have hm := (h.orderly.resting_iff d hd).1 hl
    rw [up] at hm
    cases hm
  | some e =>
    obtain ⟨r, hr, m, l, hm, hd', he⟩ := h.due d hd e hl
    have ht : (e, Timer.countdown d) ∈ x.state.timers :=
      List.mem_append_left _ (List.mem_filterMap.2 ⟨d, hd, by rw [hl]; rfl⟩)
    have hf : instant < e.instant := fired _ ht
    have ho := past r hr m (List.mem_of_getElem? hm) l hd'
    omega

theorem Reachable.pending_nil {x : Session} (h : Reachable rules x) (up : x.state.presses = []) {instant : Nat}
    (fired : ∀ e ∈ x.state.timers, instant < e.1.instant)
    (past : ∀ r ∈ x.releases, ∀ m ∈ rules, ∀ l, m.delayed = some l → r + l.delay.toNat ≤ instant) :
    x.state.pending = [] :=
  h.pending_over up fired fun r hr m hm l hl => Nat.le_trans (Nat.min_le_left _ _) (past r hr m hm l hl)

theorem Reachable.released_before {x : Session} (h : Reachable rules x) : ∀ r ∈ x.releases, r ≤ x.state.now := by
  induction h with
  | start => exact fun _ hr => (List.not_mem_nil hr).elim
  | @move x y _ step ih =>
    have same : y.releases = x.releases := by cases step <;> rfl
    rw [same, step.now]
    exact ih
  | @tick x _ _ instant ih =>
    obtain ⟨more, ht, -⟩ := x.state.tick_eq instant
    rw [ht]
    exact fun r hr => Nat.le_trans (ih r hr) (Nat.le_max_left _ _)
  | accept _ _ _ ih => exact ih
  | refuse _ _ _ ih => exact ih
  | @release x _ _ k _ ih =>
    intro r hr
    rw [(release_frame rules k x.state.now x.state).2]
    rcases List.mem_append.1 hr with hr | hr
    · exact ih r hr
    · exact Nat.le_of_eq (List.mem_singleton.1 hr)
  | take _ _ ih => exact ih

end

end KeyRules.Engine
