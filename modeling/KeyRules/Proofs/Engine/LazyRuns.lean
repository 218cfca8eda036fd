import KeyRules.Proofs.Engine.LazyJournal
import KeyRules.Proofs.Engine.Undisturbed
import Mathlib.Data.List.Pairwise

/-!
# Runs with lazy keys

Where rules arm modifiers only, and a press arms lazy keys once at most, the journal of a run is a series of steps of
lazy keys in which no press comes twice (`Reachable.armedOnce`). Lazy keys stay armed until a key of their press goes up
(`Moves.stay`).
-/

namespace KeyRules.Engine

section
variable {rules : List Manipulator}

/-- The journal tells what became of the lazy keys and what was output. No press arms twice: those whose hold timer runs
have armed nothing. -/
structure ArmedOnce (x : Session) : Prop where
  steps : LazySteps [] x.state.journal x.state.armed
  transcript : x.transcript = x.state.journal.filterMap Incident.output?
  nodup : (armings x.state.journal).Nodup
  armings_le : ∀ id ∈ armings x.state.journal, id ≤ x.state.serial
  timed : ∀ p ∈ x.state.presses, p.holdTimer.isSome = true → p.id ∉ armings x.state.journal

theorem ArmedOnce.extend {x y : Session} {turns : List (Nat × Bool)} (h : ArmedOnce x)
    (told : Tells turns x.state y.state) (taken : y.taken = x.taken) (serial : x.state.serial ≤ y.state.serial)
    (once : (arming turns).Nodup) (fresh : ∀ id ∈ arming turns, id ∉ armings x.state.journal ∧ id ≤ y.state.serial)
    (timed : ∀ q ∈ y.state.presses, q.holdTimer.isSome = true →
      q.id ∉ armings x.state.journal ∧ q.id ∉ arming turns) : ArmedOnce y := by
  obtain ⟨lines, journal, output, steps, rfl⟩ := told
  rw [← armings_turns] at once fresh timed
  have all : armings y.state.journal = armings x.state.journal ++ armings lines := by rw [journal, armings_append]
  refine ⟨journal ▸ h.steps.trans steps, ?_, ?_, ?_, ?_⟩
  · have before := h.transcript
    unfold Session.transcript at before ⊢
    rw [taken, output, journal, List.filterMap_append, ← before, List.append_assoc]
  · rw [all, List.nodup_append]
    exact ⟨h.nodup, once, fun a ha b hb he => (fresh b hb).1 (he ▸ ha)⟩
  · intro id hid
    rw [all] at hid
    rcases List.mem_append.1 hid with hid | hid
    · exact Nat.le_trans (h.armings_le id hid) serial
    · exact (fresh id hid).2
  · intro q hq ht
    rw [all, List.mem_append]
    exact fun hid => hid.elim (timed q hq ht).1 (timed q hq ht).2

/-- An operation that arms nothing and starts no hold timer. -/
theorem ArmedOnce.quiet {x y : Session} {turns : List (Nat × Bool)} (h : ArmedOnce x)
    (told : Tells turns x.state y.state) (taken : y.taken = x.taken) (serial : x.state.serial ≤ y.state.serial)
    (unarmed : arming turns = [])
    (timed : ∀ q ∈ y.state.presses, q.holdTimer.isSome = true →
      ∃ p ∈ x.state.presses, p.id = q.id ∧ p.holdTimer.isSome = true) : ArmedOnce y := by
  refine h.extend told taken serial (unarmed ▸ List.nodup_nil) ?_ fun q hq ht => ?_
  · rw [unarmed]
    exact fun id hid => (List.not_mem_nil hid).elim
  · obtain ⟨p, hp, he, hs⟩ := timed q hq ht
    rw [unarmed, ← he]
    exact ⟨h.timed p hp hs, List.not_mem_nil⟩

/-- One press arms once at most. -/
theorem arming_replicate {n : Nat} (id : Nat) (most : n ≤ 1) :
    (arming (List.replicate n (id, true))).Nodup ∧ ∀ j ∈ arming (List.replicate n (id, true)), j = id ∧ n = 1 := by
  rcases Nat.le_one_iff_eq_zero_or_eq_one.1 most with rfl | rfl
  · exact ⟨List.nodup_nil, fun j hj => (List.not_mem_nil hj).elim⟩
  · exact ⟨List.nodup_singleton id, fun j hj => ⟨List.mem_singleton.1 hj, rfl⟩⟩

theorem fire_hold_timed (s : State) (d : Deadline) (p : Press) :
    ∀ q ∈ (fire rules s d (.hold p)).presses, q.holdTimer.isSome = true → q.id ≠ p.id := by
  have marked : ∀ q : Press, q.bare ∈ (s.bare.updatePress p.id Press.fired).presses →
      q.holdTimer.isSome = true → q.id ≠ p.id := by
    intro q hq ht
    rcases Press.fired_of_id hq with ⟨-, -, stopped⟩ | ⟨other, -⟩
    · have stopped : q.holdTimer = none := stopped
      rw [stopped] at ht
      cases ht
    · exact other
  intro q hq
  have hb : q.bare ∈ (fire rules s d (.hold p)).bare.presses := List.mem_map_of_mem hq
  refine marked q ?_
  rw [fire] at hb
  cases hp : p.rule with
  | none =>
    rw [bare_fireHold_plain rules _ hp, State.bare_note rfl] at hb
    exact hb
  | some i =>
    rw [bare_fireHold rules _ hp, State.bare_note rfl] at hb
    split at hb
    · exact hb
    · exact hb

/-- Only the press that begins has a hold timer, if its rule sets one. -/
theorem dispatch_timed (keys : List Key) (rule : Option Nat) (instant : Nat) (s : State) :
    ∀ q ∈ (dispatch rules keys rule instant s).presses, q.holdTimer.isSome = true →
      q.id = s.serial + 1 ∧ ∃ i m, rule = some i ∧ rules[i]? = some m ∧ m.holdThreshold.isSome = true := by
  intro q hq ht
  have hb : q.bare ∈ (dispatch rules keys rule instant s).bare.presses := List.mem_map_of_mem hq
  have old : q.bare ∉ s.bare.presses.map Press.disturb := by
    intro hm
    obtain ⟨r, -, he⟩ := List.mem_map.1 hm
    have stopped : q.holdTimer = none := congrArg Press.holdTimer he.symm
    rw [stopped] at ht
    cases ht
  obtain ⟨i, m, rfl, hm⟩ | hr := rule_cases rules rule
  · rw [bare_dispatch_rule rules keys hm] at hb
    have he := List.mem_singleton.1 ((List.mem_append.1 hb).resolve_left old)
    have timer : q.bare.holdTimer = (begun (s.serial + 1) keys i instant m).holdTimer := congrArg Press.holdTimer he
    have timed : q.bare.holdTimer.isSome = true := ht
    rw [timer, begun, Option.isSome_map] at timed
    exact ⟨congrArg Press.id he, i, m, rfl, hm, timed⟩
  · rw [bare_dispatch_plain rules keys hr] at hb
    have he := List.mem_singleton.1 ((List.mem_append.1 hb).resolve_left old)
    have stopped : q.bare.holdTimer = none := congrArg Press.holdTimer he
    have timed : q.bare.holdTimer.isSome = true := ht
    rw [stopped] at timed
    cases timed

theorem ArmedOnce.dispatch (once : ∀ m ∈ rules, ArmsOnce m) {x y : Session} (h : ArmedOnce x) {keys : List Key}
    {rule : Option Nat} {instant : Nat} (state : y.state = dispatch rules keys rule instant x.state)
    (taken : y.taken = x.taken) : ArmedOnce y := by
  have most : (pressEvents rules rule).countP armsKeys ≤ 1 := by
    unfold pressEvents
    obtain ⟨i, m, rfl, hm⟩ | hr := rule_cases rules rule
    · simpa [eventsOf, hm] using (once m (List.mem_of_getElem? hm)).press
    · cases rule with
      | none => exact Nat.zero_le _
      | some i => simp [eventsOf, hr i rfl]
  have told := tells_dispatch once keys rule instant x.state
  have grown : x.state.serial + 1 ≤ y.state.serial := by
    obtain ⟨p, cs, n, he, -, -, -, hn, -⟩ := dispatch_effect rules keys rule instant x.state
    have serial : (Engine.dispatch rules keys rule instant x.state).serial = n := congrArg State.serial he
    rw [state, serial]
    exact hn
  have unused : x.state.serial + 1 ∉ armings x.state.journal := fun hid => by
    have := h.armings_le _ hid
    omega
  obtain ⟨nodup, own⟩ := arming_replicate (x.state.serial + 1) most
  refine h.extend (state ▸ told) taken (by omega) nodup (fun id hid => ?_) fun q hq ht => ?_
  · rw [(own id hid).1]
    exact ⟨unused, grown⟩
  · rw [state] at hq
    obtain ⟨hid, i, m, rfl, hm, threshold⟩ := dispatch_timed keys rule instant x.state q hq ht
    have unarmed := (once m (List.mem_of_getElem? hm)).timed threshold
    rw [hid]
    refine ⟨unused, fun hmem => ?_⟩
    have armed := (own _ hmem).2
    simp [pressEvents, eventsOf, hm, unarmed] at armed

theorem ArmedOnce.fire (once : ∀ m ∈ rules, ArmsOnce m) {x : Session} (h : ArmedOnce x) (ho : Orderly rules x.state)
    {d : Deadline} {timer : Timer} (first : earliest x.state.timers = some (d, timer)) :
    ArmedOnce { x with state := fire rules x.state d timer } := by
  have serial : (Engine.fire rules x.state d timer).serial = x.state.serial := fire_serial x.state d timer
  have kept : ∀ q ∈ (Engine.fire rules x.state d timer).presses, q.holdTimer.isSome = true →
      ∃ p ∈ x.state.presses, p.id = q.id ∧ p.holdTimer.isSome = true := by
    intro q hq ht
    obtain ⟨r, hr, hf⟩ := fire_from x.state d timer q hq
    exact ⟨r, hr, hf.id_eq.symm, hf.timed ht⟩
  obtain ⟨p, -, -, rfl⟩ | ⟨p, hp, runs, rfl⟩ := earliest_timers first
  · exact h.quiet (tells_fireCountdown x.state d p) rfl (Nat.le_of_eq serial.symm) rfl kept
  · have timer : p.holdTimer.isSome = true := by
      rw [runs]
      rfl
    obtain ⟨nodup, own⟩ := arming_replicate p.id (holdEvents_lazy once p).2
    refine h.extend (tells_fireHold once x.state d p) rfl (Nat.le_of_eq serial.symm) nodup (fun id hid => ?_) ?_
    · rw [(own id hid).1]
      exact ⟨h.timed p hp timer, Nat.le_trans (ho.press_le p hp) (Nat.le_of_eq serial.symm)⟩
    · intro q hq ht
      obtain ⟨r, hr, he, hs⟩ := kept q hq ht
      refine ⟨he ▸ h.timed r hr hs, fun hid => ?_⟩
      exact fire_hold_timed x.state d p q hq ht (own _ hid).1

theorem ArmedOnce.move (once : ∀ m ∈ rules, ArmsOnce m) {x y : Session} (h : ArmedOnce x) (ho : Orderly rules x.state)
    (m : Move rules x y) : ArmedOnce y := by
  have same : ∀ {t : State}, t.presses = x.state.presses → ∀ q ∈ t.presses, q.holdTimer.isSome = true →
      ∃ p ∈ x.state.presses, p.id = q.id ∧ p.holdTimer.isSome = true :=
    fun he q hq ht => ⟨q, he ▸ hq, rfl, ht⟩
  cases m with
  | fire first => exact h.fire once ho first
  | dispatch simultaneous free oldest fresh single => exact h.dispatch once rfl rfl
  | holdBack free oldest found together =>
    rename_i k instant i
    have told : Tells [] x.state (startBuffer rules k instant x.state) :=
      ((Tells.refl x.state).change rfl rfl rfl).after (tells_note rfl rfl _)
    exact h.quiet told rfl (Nat.le_succ _) rfl (same rfl)
  | join held oldest narrowed some_left =>
    exact h.quiet ((Tells.refl x.state).change rfl rfl rfl) rfl (Nat.le_refl _) rfl (same rfl)
  | close held due => exact h.quiet (tells_note rfl rfl x.state) rfl (Nat.le_refl _) rfl (same rfl)
  | finish held idle first ready =>
    rename_i b i
    have emptied : Tells [] x.state { x.state with buffer := none } := (Tells.refl x.state).change rfl rfl rfl
    have ready : ArmedOnce { x with state := handOver rules b i x.state } := by
      refine handOver_of (P := fun t => ArmedOnce { x with state := t }) ?_ ?_
      · exact h.quiet emptied rfl (Nat.le_refl _) rfl (same rfl)
      · intro u t hu
        exact hu.quiet (tells_note rfl rfl u) rfl (Nat.le_refl _) rfl fun q hq ht => ⟨q, hq, rfl, ht⟩
    exact ready.dispatch once (finish_eq rules b i x.state) rfl
  | flush held =>
    rename_i b
    have told : Tells [] x.state ({ x.state with buffer := none }.note (.flushed b.keys.length)) :=
      ((Tells.refl x.state).change rfl rfl rfl).after (tells_note rfl rfl _)
    exact h.quiet told rfl (Nat.le_refl _) rfl (same rfl)

/-- In every run of rules whose presses arm once, lazy keys change step by step as the journal tells. -/
theorem Reachable.armedOnce (once : ∀ m ∈ rules, ArmsOnce m) {x : Session} (h : Reachable rules x) : ArmedOnce x := by
  induction h with
  | start =>
    refine ⟨.refl _, rfl, List.nodup_nil, fun id hid => ?_, fun p hp => ?_⟩
    · exact (List.not_mem_nil hid).elim
    · exact (List.not_mem_nil hp).elim
  | move hx m ih => exact ih.move once hx.orderly m
  | tick _ _ instant ih =>
    rename_i x _ _
    refine State.tick_of (P := fun t => ArmedOnce { x with state := t }) ?_ fun u t n hu => ?_
    · exact ih.quiet ((Tells.refl _).change rfl rfl rfl) rfl (Nat.le_refl _) rfl fun q hq ht => ⟨q, hq, rfl, ht⟩
    · exact hu.quiet (tells_note rfl rfl u) rfl (Nat.le_refl _) rfl fun q hq ht => ⟨q, hq, rfl, ht⟩
  | accept _ _ _ ih =>
    exact ih.quiet (tells_note rfl rfl _) rfl (Nat.le_refl _) rfl fun q hq ht => ⟨q, hq, rfl, ht⟩
  | refuse _ _ _ ih =>
    exact ih.quiet (tells_note rfl rfl _) rfl (Nat.le_refl _) rfl fun q hq ht => ⟨q, hq, rfl, ht⟩
  | release hx _ _ ih =>
    rename_i x _ k _
    obtain ⟨ps, cs, n, he, grown, -⟩ := release_effect rules k x.state.now x.state
    have serial : (Engine.release rules k x.state.now x.state).serial = n := congrArg State.serial he
    refine ih.quiet (tells_release k x.state.now x.state) rfl (serial ▸ grown) ?_ fun q hq ht => ?_
    · unfold arming
      cases x.state.holder? k with
      | none => rfl
      | some p => simp
    · obtain ⟨r, hr, hf⟩ := release_from hx.orderly k x.state.now q hq
      exact ⟨r, hr, hf.id_eq.symm, hf.timed ht⟩
  | take _ _ ih =>
    refine ⟨ih.steps, ?_, ih.nodup, ih.armings_le, ih.timed⟩
    rw [← ih.transcript]
    exact List.append_nil _

/-! ## Those that stay -/

theorem Tells.stay {s t : State} {turns : List (Nat × Bool)} (h : Tells turns s t)
    (none_goes : ∀ turn ∈ turns, turn.2 = true) : s.armed.map Armed.name <+: t.armed.map Armed.name := by
  obtain ⟨lines, -, -, steps, rfl⟩ := h
  obtain ⟨more, names, -⟩ := steps.stay none_goes
  exact ⟨more, names.symm⟩

theorem Tells.same {s t : State} (h : Tells [] s t) : t.armed.map Armed.name = s.armed.map Armed.name := by
  obtain ⟨lines, -, -, steps, turns⟩ := h
  obtain ⟨more, names, ids⟩ := steps.stay (turns ▸ fun turn ht => (List.not_mem_nil ht).elim)
  rw [turns] at ids
  rw [names, List.map_eq_nil_iff.1 ids, List.append_nil]

theorem dispatch_stay (once : ∀ m ∈ rules, ArmsOnce m) (keys : List Key) (rule : Option Nat) (instant : Nat)
    (s : State) : s.armed.map Armed.name <+: (dispatch rules keys rule instant s).armed.map Armed.name :=
  (tells_dispatch once keys rule instant s).stay fun turn ht => by rw [List.eq_of_mem_replicate ht]

theorem Move.stay (once : ∀ m ∈ rules, ArmsOnce m) {x y : Session} (m : Move rules x y) :
    x.state.armed.map Armed.name <+: y.state.armed.map Armed.name := by
  cases m with
  | fire first =>
    obtain ⟨p, -, -, rfl⟩ | ⟨p, -, -, rfl⟩ := earliest_timers first
    · exact (tells_fireCountdown x.state _ p).stay fun turn ht => (List.not_mem_nil ht).elim
    · exact (tells_fireHold once x.state _ p).stay fun turn ht => by rw [List.eq_of_mem_replicate ht]
  | dispatch simultaneous free oldest fresh single => exact dispatch_stay once _ _ _ _
  | holdBack free oldest found together => exact List.prefix_refl _
  | join held oldest narrowed some_left => exact List.prefix_refl _
  | close held due => exact List.prefix_refl _
  | finish held idle first ready =>
    rename_i b i
    have emptied : (handOver rules b i x.state).armed = x.state.armed :=
      handOver_of (P := fun t => t.armed = x.state.armed) rfl fun _ _ hu => hu
    show x.state.armed.map Armed.name <+: (Engine.finish rules b i x.state).armed.map Armed.name
    rw [finish_eq, ← emptied]
    exact dispatch_stay once _ _ _ _
  | flush held => exact List.prefix_refl _

theorem Moves.stay (once : ∀ m ∈ rules, ArmsOnce m) {x y : Session} (m : Moves rules x y) :
    x.state.armed.map Armed.name <+: y.state.armed.map Armed.name := by
  induction m with
  | refl => exact List.prefix_refl _
  | tail _ m ih => exact ih.trans (Move.stay once m)

theorem advanceTo_stay (once : ∀ m ∈ rules, ArmsOnce m) (instant : Nat) (s : State) :
    s.armed.map Armed.name <+: (advanceTo rules instant s).armed.map Armed.name := by
  have ticked : (s.tick instant).armed = s.armed :=
    State.tick_of (P := fun t => t.armed = s.armed) rfl fun _ _ _ hu => hu
  have moves : Moves rules { state := s.tick instant } { state := advanceTo rules instant s } :=
    moves_advanceTo instant (x := { state := s }) rfl
  exact ticked ▸ moves.stay once

theorem accept_stay (once : ∀ m ∈ rules, ArmsOnce m) (k : Key) (s : State) :
    s.armed.map Armed.name <+: (accept rules k s).armed.map Armed.name := by
  have moves : Moves rules _ { state := accept rules k s } := moves_accept k { state := s }
  exact moves.stay once

theorem flushHolding_stay (once : ∀ m ∈ rules, ArmsOnce m) (k : Key) (s : State) :
    s.armed.map Armed.name <+: (flushHolding rules k s).armed.map Armed.name :=
  Moves.stay once (moves_flushHolding rules k { state := s }).1

/-- Only a key that goes up takes lazy keys away. -/
theorem step_stay (once : ∀ m ∈ rules, ArmsOnce m) (s : State) {i : Input} (other : ∀ k instant, i ≠ .up k instant) :
    s.armed.map Armed.name <+: (step rules s i).armed.map Armed.name := by
  cases i with
  | down k instant =>
    have passed := advanceTo_stay once instant s
    simp only [step, keyDown]
    split
    · exact passed
    · exact passed.trans (accept_stay once k _)
  | up k instant => exact absurd rfl (other k instant)
  | advance instant => exact advanceTo_stay once instant s
  | take => exact List.prefix_refl _

variable (rules) in
/-- A key that goes up lets go of what its press holds, the lazy keys last. Those of other presses stay. -/
theorem release_leaves {s : State} {k : Key} {p : Press} (hk : s.holder? k = some p) (instant : Nat) :
    (release rules k instant s).armed.map Armed.name = (s.armed.filter (·.press != p.id)).map Armed.name ∧
      ∃ more, (release rules k instant s).journal =
        s.journal ++ upLines p.outputs ++ (s.leaving p.id).flatMap Armed.farewell ++ more ∧
        more.filterMap Incident.turn? = [] := by
  obtain ⟨u, hu⟩ : ∃ u, u = (s.updatePress p.id (Press.keep (p.held.filter (· != k)))).releaseOutputs p := ⟨_, rfl⟩
  have armed : u.armed = s.armed.filter (·.press != p.id) :=
    hu ▸ releaseOutputs_armed (s.updatePress p.id (Press.keep (p.held.filter (· != k)))) p
  have journal : u.journal = s.journal ++ upLines p.outputs ++ (s.leaving p.id).flatMap Armed.farewell :=
    hu ▸ releaseOutputs_journal (s.updatePress p.id (Press.keep (p.held.filter (· != k)))) p
  rw [← armed, ← journal]
  have either : release rules k instant s =
      if (p.held.filter (· != k)).isEmpty then endPress rules p instant u else u := by
    simp only [release, hk, hu]
    rfl
  rw [either]
  split
  · have told := tells_endPress rules p instant u
    refine ⟨told.same, ?_⟩
    obtain ⟨lines, hj, -, -, turns⟩ := told
    exact ⟨lines, hj, turns⟩
  · exact ⟨rfl, [], (List.append_nil _).symm, rfl⟩

theorem holder_of_held {s : State} (nodup : s.heldLists.flatten.Nodup) {p : Press} (hp : p ∈ s.presses) {k : Key}
    (hk : k ∈ p.held) : s.holder? k = some p := by
  cases holder : s.holder? k with
  | none => exact absurd (List.mem_flatten.2 ⟨p.held, List.mem_map_of_mem hp, hk⟩) (holder_none holder)
  | some q =>
    obtain ⟨hq, hkq⟩ := holder_mem holder
    have disjoint := (List.nodup_flatten.1 nodup).2
    rw [State.heldLists, List.pairwise_map] at disjoint
    have symmetric : Std.Symm fun a b : Press => a.held.Disjoint b.held := ⟨fun _ _ h _ hb ha => h ha hb⟩
    by_contra hne
    exact disjoint.forall hq hp (fun he => hne (congrArg some he)) hkq hk

end

end KeyRules.Engine
