import KeyRules.Proofs.Engine.Balance
import KeyRules.Proofs.Engine.Chronicle
import KeyRules.Proofs.Engine.Origins
import KeyRules.Proofs.Engine.PhysicalKeys

/-!
# Delayed actions

A delayed action is resolved at most once, by its countdown or by a press of other keys, and only after its press ended
(`Reachable.resolved`). With every key up nothing is left but countdowns, and those end with time
(`delayed_actions_resolved`).
-/

namespace KeyRules.Engine

/-- The press whose delayed action the line resolves. -/
def Incident.resolves? : Incident → Option Nat
  | emitted press _ .invoked | emitted press _ .canceled => some press
  | _ => none

def resolutions (journal : List Incident) : List Nat := journal.filterMap Incident.resolves?

/-- The line tells that a countdown ended because keys went down. -/
def Incident.isEnding : Incident → Bool
  | dropped _ _ | emitted _ _ .canceled => true
  | _ => false

/-- A press of other keys has just begun: since then countdowns ended and keys were sent, no more. -/
def Interrupted (press : Nat) (before : List Incident) : Prop :=
  ∃ earlier id keys rule instant flags between,
    before = earlier ++ .dispatched id keys rule instant flags :: between ∧
    (∀ l ∈ between, l.isSending = true ∨ l.isEnding = true) ∧
    ∃ b ∈ beginnings earlier, b.press = press ∧ b.keys.Disjoint keys

/-- A countdown is canceled only by a press of other keys. -/
def Canceling (before : List Incident) (line : Incident) : Prop :=
  ∀ press rule, line = .emitted press rule .canceled → Interrupted press before

theorem resolutions_append (j more : List Incident) : resolutions (j ++ more) = resolutions j ++ resolutions more :=
  List.filterMap_append

theorem resolutions_eq_nil {j : List Incident} (h : ∀ l ∈ j, l.resolves? = none) : resolutions j = [] :=
  List.filterMap_eq_nil_iff.2 h

theorem resolves_of_sending (l : Incident) (hl : l.isSending = true) : l.resolves? = none := by
  cases l <;> first | rfl | cases hl

theorem resolutions_lines {s t : State} {more : List Incident} (h : t.bare.journal = s.bare.journal ++ more) :
    resolutions t.journal = resolutions s.journal ++ resolutions more := filterMap_lines resolves_of_sending h

theorem canceling_quiet {l : Incident} (hl : l.resolves? = none) (before : List Incident) : Canceling before l := by
  rintro press rule rfl
  cases hl

theorem chronicle_quiet {j more : List Incident} (h : Chronicle Canceling j)
    (quiet : ∀ l ∈ more, l.resolves? = none) : Chronicle Canceling (j ++ more) := by
  refine h.append fun before l after he => canceling_quiet (quiet l ?_) _
  rw [he]
  exact List.mem_append_right _ List.mem_cons_self

theorem Interrupted.of_bare {press : Nat} {before : List Incident}
    (h : Interrupted press (before.filter fun i => !i.isSending)) : Interrupted press before := by
  obtain ⟨earlier, id, keys, rule, instant, flags, between, he, ends, b, hb, rest⟩ := h
  obtain ⟨front, back, rfl, rfl, hf⟩ := List.filter_eq_append_iff.1 he
  obtain ⟨quiet, later, rfl, -, -, rfl⟩ := List.filter_eq_cons_iff.1 hf
  refine ⟨front ++ quiet, id, keys, rule, instant, flags, later, by simp, fun l hl => ?_, b, ?_, rest⟩
  · cases hs : l.isSending with
    | true => exact .inl rfl
    | false => exact .inr ((ends l (List.mem_filter.2 ⟨hl, by rw [hs]; rfl⟩)).resolve_left fun hn => by
        rw [hs] at hn
        cases hn)
  · rw [beginnings_append]
    refine List.mem_append_left _ ?_
    rwa [beginnings, filterMap_bare begins_of_sending] at hb

section
variable {rules : List Manipulator}

/-- No delayed action was resolved that is there still, and none twice. -/
structure Resolved (s : State) : Prop where
  once : ∀ press, (resolutions s.journal).count press + (s.pending.map (·.press)).count press ≤ 1
  le : ∀ press ∈ resolutions s.journal, press ≤ s.serial
  lines : Chronicle Canceling s.bare.journal

/-! ## One step -/

theorem Resolved.narrow {s t : State} (h : Resolved s) (ho : Orderly rules s) {more : List Incident}
    (journal : t.bare.journal = s.bare.journal ++ more) (lines : Chronicle Canceling t.bare.journal)
    (kept : ∀ press, (resolutions more).count press + (t.pending.map (·.press)).count press ≤
      (s.pending.map (·.press)).count press)
    (serial : s.serial ≤ t.serial) : Resolved t where
  once press := by
    have hs := h.once press
    have hk := kept press
    rw [resolutions_lines journal, List.count_append]
    omega
  le press hp := by
    rw [resolutions_lines journal] at hp
    rcases List.mem_append.1 hp with hp | hp
    · exact Nat.le_trans (h.le press hp) serial
    · have hk := kept press
      have hc := List.count_pos_iff.2 hp
      have waits : 0 < (s.pending.map (·.press)).count press := by omega
      obtain ⟨d, hd, rfl⟩ := List.mem_map.1 (List.count_pos_iff.1 waits)
      exact Nat.le_trans (ho.pending_le d hd) serial
  lines := lines

theorem Resolved.quiet {s t : State} (h : Resolved s) (ho : Orderly rules s) {more : List Incident}
    (journal : t.bare.journal = s.bare.journal ++ more) (quiet : ∀ l ∈ more, l.resolves? = none)
    (pending : (t.pending.map (·.press)).Sublist (s.pending.map (·.press))) (serial : s.serial ≤ t.serial) :
    Resolved t := by
  refine h.narrow ho journal ?_ (fun press => ?_) serial
  · rw [journal]
    exact chronicle_quiet h.lines quiet
  · rw [resolutions_eq_nil quiet, List.count_nil, Nat.zero_add]
    exact pending.count_le press

theorem Resolved.note {s : State} (h : Resolved s) (ho : Orderly rules s) {l : Incident} (sending : l.isSending = false)
    (resolves : l.resolves? = none) : Resolved (s.note l) := by
  have journal : (s.note l).bare.journal = s.bare.journal ++ [l] := by
    rw [State.bare_note sending]
    rfl
  refine h.quiet ho journal (fun i hi => ?_) (.refl _) (Nat.le_refl _)
  rw [List.mem_singleton.1 hi]
  exact resolves

theorem Resolved.congr {s t : State} (h : Resolved s) (journal : t.journal = s.journal)
    (pending : t.pending = s.pending) (serial : s.serial ≤ t.serial) : Resolved t where
  once := by
    rw [journal, pending]
    exact h.once
  le press hp := Nat.le_trans (h.le press (journal ▸ hp)) serial
  lines := by
    rw [State.bare, journal]
    exact h.lines

/-- A countdown that ends resolves its delayed action and takes it away. -/
theorem Resolved.fireCountdown {s : State} (h : Resolved s) (ho : Orderly rules s) {d : Deadline} {p : Pending}
    (hp : p ∈ s.pending) : Resolved (fire rules s d (.countdown p)) := by
  have journal := fire_journal rules s d (.countdown p)
  have pending : (Engine.fire rules s d (.countdown p)).pending = (s.forgetPending p.press).pending := by
    rw [← State.bare_pending, Engine.fire, bare_fireCountdown]
    rfl
  refine h.narrow ho journal ?_ (fun press => ?_) (Nat.le_of_eq (fire_serial s d (.countdown p)).symm)
  · rw [journal]
    refine h.lines.append fun before l after he press rule hl => ?_
    -- a countdown that ends on its own is not canceled
    have hm : l ∈ fireLines d (.countdown p) := by
      rw [he]
      exact List.mem_append_right _ List.mem_cons_self
    rw [hl] at hm
    obtain hm | ⟨q, -, hm | hm⟩ | ⟨q, i, -, -, hm⟩ := fireLines_mem hm <;> cases hm
  · have gone := ((perm_cons_filter ho.pending_nodup hp).map (·.press)).count_eq press
    have fired : resolutions (fireLines d (.countdown p)) = [p.press] := rfl
    rw [fired, pending, gone, ← List.count_append]
    exact Nat.le_refl _

theorem Resolved.fire {s : State} (h : Resolved s) (ho : Orderly rules s) {d : Deadline} {timer : Timer}
    (first : earliest s.timers = some (d, timer)) : Resolved (fire rules s d timer) := by
  obtain ⟨p, hp, -, rfl⟩ | ⟨p, -, -, rfl⟩ := earliest_timers first
  · exact h.fireCountdown ho hp
  · refine h.quiet ho (fire_journal rules s d (.hold p)) (fun l hl => ?_)
      ((fire_pending s d (.hold p)).map _) (Nat.le_of_eq (fire_serial s d (.hold p)).symm)
    obtain rfl | ⟨q, hq, -⟩ | ⟨q, i, -, -, rfl⟩ := fireLines_mem hl
    · rfl
    · cases hq
    · rfl

/-- The countdowns that a press ends resolve each its own delayed action at most. -/
theorem resolutions_endings (keys : List Key) (ps : List Pending) :
    (resolutions (ps.map (ending keys))).Sublist (ps.map (·.press)) := by
  induction ps with
  | nil => exact .refl _
  | cons d ps ih =>
    show ((ending keys d :: ps.map (ending keys)).filterMap Incident.resolves?).Sublist _
    by_cases hk : d.owners.any (· ∈ keys) = true
    · rw [ending, if_pos hk]
      exact ih.cons d.press
    · rw [ending, if_neg hk]
      exact ih.cons_cons d.press

/-- The countdown that a press cancels is that of a press of other keys. -/
theorem Traced.canceled {s : State} (ht : Traced rules s) (keys : List Key) (rule : Option Nat) (instant : Nat)
    (earlier : List Pending) {d : Pending} (hd : d ∈ s.pending) {press i : Nat}
    (canceled : ending keys d = .emitted press i .canceled) :
    Interrupted press
      (s.bare.journal ++ .dispatched (s.serial + 1) keys rule instant s.flags :: earlier.map (ending keys)) := by
  unfold ending at canceled
  split at canceled
  · cases canceled
  · rename_i disjoint
    obtain ⟨rfl, -⟩ := Incident.emitted.inj canceled
    refine ⟨s.bare.journal, s.serial + 1, keys, rule, instant, s.flags, earlier.map (ending keys), rfl,
      fun l hl => ?_, ⟨d.press, d.owners, some d.rule⟩, ?_, rfl, fun k hk hn => disjoint ?_⟩
    · obtain ⟨c, -, rfl | rfl⟩ := endings_mem hl
      · exact .inr rfl
      · exact .inr rfl
    · rw [beginnings_bare]
      exact ht.pending d hd
    · exact List.any_eq_true.2 ⟨k, hk, decide_eq_true hn⟩

theorem Traced.canceling {s : State} (ht : Traced rules s) (h : Chronicle Canceling s.bare.journal) (keys : List Key)
    (rule : Option Nat) (instant : Nat) :
    Chronicle Canceling (s.bare.journal ++ dispatchLines rules keys rule instant s) := by
  rw [dispatchLines, List.append_cons, ← List.append_assoc]
  refine chronicle_quiet ?_ fun l hl => ?_
  · refine (h.snoc (canceling_quiet rfl _)).append fun before l after he press i hl => ?_
    subst hl
    obtain ⟨earlier, later, split, rfl, hl⟩ := List.map_eq_append_iff.1 he
    obtain ⟨d, rest, rfl, hd, -⟩ := List.map_eq_cons_iff.1 hl
    have running : d ∈ s.running := by
      rw [split]
      exact List.mem_append_right _ List.mem_cons_self
    have interrupted := ht.canceled keys rule instant earlier (List.mem_filter.1 running).1 hd
    rwa [List.append_cons] at interrupted
  · obtain ⟨i, rfl⟩ := beginLines_mem rules hl
    rfl

theorem running_resting_perm (s : State) : (s.running ++ s.resting).Perm s.pending := by
  refine .trans (.of_eq ?_) (List.filter_append_perm (fun d : Pending => d.deadline.isSome) s.pending)
  simp [State.running, State.resting]

/-- An older delayed action that is left when a press begins has rested. -/
theorem Orderly.rests_of_dispatch {s : State} (h : Orderly rules s) (keys : List Key) (rule : Option Nat)
    (instant : Nat) {press : Nat} (old : press ≤ s.serial) :
    ((Engine.dispatch rules keys rule instant s).pending.map (·.press)).count press ≤
      (s.resting.map (·.press)).count press := by
  by_cases hp : press ∈ (Engine.dispatch rules keys rule instant s).pending.map (·.press)
  · obtain ⟨d, hd, rfl⟩ := List.mem_map.1 hp
    have rests : d ∈ s.resting := (dispatch_awaits hd).resolve_right fun hn => by omega
    have once := List.nodup_iff_count_le_one.1 (h.dispatch keys rule instant).pending_nodup d.press
    exact Nat.le_trans once (List.count_pos_iff.2 (List.mem_map_of_mem rests))
  · rw [List.count_eq_zero.2 hp]
    exact Nat.zero_le _

/-- A press resolves the delayed actions whose countdown runs and brings one of its own at most. -/
theorem Resolved.dispatch {s : State} (h : Resolved s) (ho : Orderly rules s) (ht : Traced rules s) (keys : List Key)
    (rule : Option Nat) (instant : Nat) : Resolved (dispatch rules keys rule instant s) := by
  have journal := dispatch_journal rules keys rule instant s
  have orderly := ho.dispatch keys rule instant
  have serial : s.serial + 1 ≤ (Engine.dispatch rules keys rule instant s).serial := dispatch_serial keys rule instant s
  have resolved : (resolutions (dispatchLines rules keys rule instant s)).Sublist (s.running.map (·.press)) := by
    have quiet : resolutions (beginLines rules (s.serial + 1) rule) = [] := resolutions_eq_nil fun l hl => by
      obtain ⟨i, rfl⟩ := beginLines_mem rules hl
      rfl
    have all : resolutions (dispatchLines rules keys rule instant s) =
        resolutions (s.running.map (ending keys)) ++ resolutions (beginLines rules (s.serial + 1) rule) :=
      resolutions_append _ _
    rw [all, quiet, List.append_nil]
    exact resolutions_endings keys s.running
  have known : ∀ press ∈ resolutions (dispatchLines rules keys rule instant s), press ≤ s.serial := fun press hp => by
    obtain ⟨d, hd, rfl⟩ := List.mem_map.1 (resolved.subset hp)
    exact ho.pending_le d (List.mem_filter.1 hd).1
  refine ⟨fun press => ?_, fun press hp => ?_, ?_⟩
  · rw [resolutions_lines journal, List.count_append]
    by_cases fresh : press ≤ s.serial
    · have split := ((running_resting_perm s).map (·.press)).count_eq press
      rw [List.map_append, List.count_append] at split
      have left := ho.rests_of_dispatch keys rule instant fresh
      have := h.once press
      have := resolved.count_le press
      omega
    · have before : (resolutions s.journal).count press = 0 := List.count_eq_zero.2 fun hp => fresh (h.le press hp)
      have now : (resolutions (dispatchLines rules keys rule instant s)).count press = 0 :=
        List.count_eq_zero.2 fun hp => fresh (known press hp)
      have := List.nodup_iff_count_le_one.1 orderly.pending_nodup press
      omega
  · rw [resolutions_lines journal] at hp
    rcases List.mem_append.1 hp with hp | hp
    · have := h.le press hp
      omega
    · have := known press hp
      omega
  · rw [journal]
    exact ht.canceling h.lines keys rule instant

theorem settled_ids (p : Press) (i : Nat) (m : Manipulator) (instant : Nat) (s : State) :
    ((settled p i m instant s).pending.map (·.press)).Sublist (s.pending.map (·.press)) := by
  have started : ∀ t : State, t.pending = s.pending →
      ((startCountdown p.id m instant t).pending.map (·.press)).Sublist (s.pending.map (·.press)) := fun t ht => by
    rw [startCountdown_ids, ht]
  unfold settled
  cases isTap m p instant with
  | false => exact started _ rfl
  | true =>
    simp only [if_true, Bool.true_and]
    split
    · exact List.filter_sublist.map _
    · exact started _ rfl

theorem release_ids (k : Key) (instant : Nat) (s : State) :
    ((release rules k instant s).pending.map (·.press)).Sublist (s.pending.map (·.press)) := by
  cases hk : s.holder? k with
  | none =>
    rw [release_none rules hk]
    exact .refl _
  | some p =>
    rw [← State.bare_pending, bare_release rules hk]
    split
    · obtain ⟨i, m, hr, hm⟩ | hr := rule_cases rules p.rule
      · rw [bare_endPress_rule rules hr hm]
        exact settled_ids p i m instant _
      · rw [bare_endPress_plain rules hr]
        exact .refl _
    · exact .refl _

theorem Resolved.release {s : State} (h : Resolved s) (ho : Orderly rules s) (k : Key) (instant : Nat) :
    Resolved (release rules k instant s) := by
  refine h.quiet ho (release_journal rules k instant s) (fun l hl => ?_) (release_ids k instant s)
    (release_serial k instant s)
  obtain rfl | ⟨p, -, rfl | ⟨i, -, ⟨-, rfl⟩ | rfl⟩⟩ := releaseLines_mem rules hl <;> rfl

theorem Resolved.handOver {s : State} (h : Resolved s) (ho : Orderly rules s) (b : Buffer) (i : Nat) :
    Resolved (handOver rules b i s) :=
  have emptied : Orderly rules { s with buffer := none } ∧ Resolved { s with buffer := none } :=
    ⟨ho.congr rfl rfl rfl, h.congr rfl rfl (Nat.le_refl _)⟩
  (handOver_of (P := fun u => Orderly rules u ∧ Resolved u) emptied fun _ _ hu =>
    ⟨hu.1.note _, hu.2.note hu.1 rfl rfl⟩).2

/-! ## Every moment of every run -/

theorem Resolved.move {x y : Session} (h : Resolved x.state) (hx : Reachable rules x) (step : Move rules x y) :
    Resolved y.state := by
  have ho := hx.orderly
  have ht := hx.traced
  cases step with
  | fire first => exact h.fire ho first
  | dispatch simultaneous free oldest once single => exact h.dispatch ho ht _ _ _
  | @holdBack k instant i free oldest found together =>
    have hn : Resolved (x.state.note (.buffered k (openCandidates rules x.state k) x.state.flags)) :=
      h.note ho rfl rfl
    exact hn.congr rfl rfl (Nat.le_succ _)
  | join held oldest narrowed some_left => exact h.congr rfl rfl (Nat.le_refl _)
  | close held due => exact h.note ho rfl rfl
  | finish held idle first ready =>
    simp only [finish_eq]
    exact (h.handOver ho _ _).dispatch (ho.handOver _ _) (ht.handOver _ _) _ _ _
  | @flush b held =>
    have hn : Resolved (x.state.note (.flushed b.keys.length)) := h.note ho rfl rfl
    exact hn.congr rfl rfl (Nat.le_refl _)

theorem Reachable.resolved {x : Session} (h : Reachable rules x) : Resolved x.state := by
  induction h with
  | start => exact ⟨fun _ => Nat.zero_le _, fun _ hp => (List.not_mem_nil hp).elim, chronicle_nil _⟩
  | move hx step ih => exact ih.move hx step
  | @tick x hx _ instant ih =>
    have later : Orderly rules { x.state with now := max x.state.now instant } ∧
        Resolved { x.state with now := max x.state.now instant } :=
      ⟨hx.orderly.congr rfl rfl rfl, ih.congr rfl rfl (Nat.le_refl _)⟩
    exact (State.tick_of (P := fun u => Orderly rules u ∧ Resolved u) later fun _ _ _ hu =>
      ⟨hu.1.note _, hu.2.note hu.1 rfl rfl⟩).2
  | accept hx _ _ ih => exact ih.note hx.orderly rfl rfl
  | refuse hx _ _ ih => exact ih.note hx.orderly rfl rfl
  | release hx _ _ ih => exact ih.release hx.orderly _ _
  | take _ _ ih => exact ih.congr rfl rfl (Nat.le_refl _)

/-! ## With every key up -/

theorem Reachable.unused {x : Session} (hx : Reachable rules x) (up : x.down = []) :
    x.state.presses = [] ∧ x.state.armed = [] ∧ x.state.buffer = none := by
  have presses := hx.tracked.presses_nil up
  refine ⟨presses, List.eq_nil_iff_forall_not_mem.2 fun a ha => ?_,
    Option.eq_none_iff_forall_ne_some.2 fun b hb => ?_⟩
  · have owned := hx.balanced.owned a ha
    rw [State.ids, presses] at owned
    cases owned
  · have owned := hx.tracked.owned
    rw [up, List.perm_nil, List.append_eq_nil_iff, List.append_eq_nil_iff, State.buffered_of_some hb] at owned
    exact hx.tracked.opened b hb (List.map_eq_nil_iff.1 owned.1.2)

def longestDelay : Nat := UInt32.size - 1

/-- With every key up the longest delay ends every countdown. -/
theorem Reachable.spent {x : Session} (hx : Reachable rules x) (idle : x.waiting = []) (up : x.down = []) :
    (Engine.advanceTo rules (after x.state.now longestDelay) x.state).pending = [] := by
  have hy := hx.advanceTo idle (after x.state.now longestDelay)
  refine hy.pending_over (hy.unused up).1 (hx.advanceTo_timers idle _) fun r hr m _ l _ => ?_
  have before := hx.released_before r hr
  have short := l.delay.toNat_lt
  unfold after longestDelay
  simp only [UInt32.size] at *
  omega

end

/-- In every state of a run delayed actions belong to distinct presses, and a countdown rests exactly while its press
is in flight. Over the run each delayed action is resolved at most once, by its countdown or by a cancellation, after
its press was released; it is canceled only by a press of other keys that begins. With every key up no press, no lazy
key and no buffer is left, and once the longest delay has passed no delayed action either. -/
theorem delayed_actions_resolved (rules : List Manipulator) (inputs : List Input) :
    ((run rules inputs).pending.map (·.press)).Nodup ∧
    (∀ d ∈ (run rules inputs).pending, d.deadline = none ↔ ∃ p ∈ (run rules inputs).presses, p.id = d.press) ∧
    (resolutions (run rules inputs).journal).Nodup ∧
    (∀ before line after press, (run rules inputs).journal = before ++ line :: after →
      line.resolves? = some press → .released press ∈ before) ∧
    (∀ before press rule after, (run rules inputs).journal = before ++ .emitted press rule .canceled :: after →
      Interrupted press before) ∧
    ((∀ k, isPressed inputs k = false) →
      (run rules inputs).presses = [] ∧ (run rules inputs).armed = [] ∧ (run rules inputs).buffer = none ∧
      (run rules (inputs ++ [.advance (after (run rules inputs).now longestDelay)])).pending = []) := by
  obtain ⟨hx, idle⟩ := reachable_session rules inputs
  have orderly := hx.orderly
  have resolved := hx.resolved
  have sound : Chronicled (run rules inputs).bare := by
    rw [← session_state]
    exact hx.chronicled
  have unused := hx.unused
  have spent := hx.spent idle
  rw [session_state] at orderly resolved unused spent
  refine ⟨orderly.pending_nodup, fun d hd => ?_, List.nodup_iff_count_le_one.2 fun press => ?_,
    fun before line after press he hr => ?_, fun before press rule after he => ?_, fun up => ?_⟩
  · rw [orderly.resting_iff d hd, List.mem_map]
  · exact Nat.le_trans (Nat.le_add_right _ _) (resolved.once press)
  · cases line with
    | emitted id rule stage =>
      have kept := sound.sound he rfl
      cases stage with
      | invoked => exact Option.some.inj hr ▸ kept
      | canceled => exact Option.some.inj hr ▸ kept
      | _ => cases hr
    | _ => cases hr
  · have hb : (run rules inputs).bare.journal = before.filter (fun i => !i.isSending) ++
        .emitted press rule .canceled :: after.filter fun i => !i.isSending := by
      simp [State.bare, he, Incident.isSending]
    exact (resolved.lines _ _ _ hb press rule rfl).of_bare
  · have down : (session rules inputs).down = [] := List.eq_nil_iff_forall_not_mem.2 fun k hk => by
      rw [mem_session_down, up k] at hk
      cases hk
    obtain ⟨presses, armed, free⟩ := unused down
    refine ⟨presses, armed, free, ?_⟩
    rw [run_append]
    exact spent down

end KeyRules.Engine
