import KeyRules.Proofs.Engine.Keys
import KeyRules.Proofs.Engine.Timers

/-!
# Where presses and delayed actions come from

What is in flight goes back to one line of the journal: every press and every delayed action has the number, the rule
and the keys with which a press began, and only a press that began is released (`Reachable.traced`).
-/

namespace KeyRules.Engine

/-- The presses in flight, each with the rule that handles it. -/
def State.handled (s : State) : List (Nat × Option Nat) := s.presses.map fun p => (p.id, p.rule)

theorem handled_bare (s : State) : s.bare.handled = s.handled := by
  simp [State.handled, Function.comp_def]

theorem State.handled_updatePress {f : Press → Press} (hf : ∀ p, (f p).id = p.id ∧ (f p).rule = p.rule)
    (s : State) (id : Nat) : (s.updatePress id f).handled = s.handled := by
  simp only [handled, updatePress, List.map_map]
  refine List.map_congr_left fun p _ => ?_
  by_cases h : p.id = id <;> simp [h, hf]

theorem State.mem_handled {s : State} {p : Press} (hp : p ∈ s.presses) : (p.id, p.rule) ∈ s.handled :=
  List.mem_map_of_mem hp

/-- The press of a line that ends one. -/
def Incident.releases? : Incident → Option Nat
  | released press => some press
  | _ => none

def endedPresses (journal : List Incident) : List Nat := journal.filterMap Incident.releases?

theorem releases_of_sending (l : Incident) (hl : l.isSending = true) : l.releases? = none := by
  cases l <;> first | rfl | cases hl

theorem endedPresses_eq_nil {j : List Incident} (h : ∀ l ∈ j, l.releases? = none) : endedPresses j = [] :=
  List.filterMap_eq_nil_iff.2 h

section
variable {rules : List Manipulator}

/-! ## Operations on what is in flight -/

theorem fire_handled (s : State) (d : Deadline) (timer : Timer) : (fire rules s d timer).handled = s.handled := by
  have marked : ∀ id, (s.bare.updatePress id Press.fired).handled = s.bare.handled :=
    State.handled_updatePress (f := Press.fired) (fun _ => ⟨rfl, rfl⟩) s.bare
  rw [← handled_bare, ← handled_bare s]
  cases timer with
  | countdown p =>
    rw [fire, bare_fireCountdown, State.bare_note rfl]
    rfl
  | hold p =>
    rw [fire]
    cases hp : p.rule with
    | none =>
      rw [bare_fireHold_plain rules _ hp, State.bare_note rfl]
      exact marked p.id
    | some i =>
      rw [bare_fireHold rules _ hp, State.bare_note rfl]
      split <;> exact marked p.id

theorem dispatch_handled (keys : List Key) (rule : Option Nat) (instant : Nat) (s : State) :
    (dispatch rules keys rule instant s).handled =
      s.handled ++ [(s.serial + 1, rule.filter fun i => rules[i]?.isSome)] := by
  have disturbed : (s.bare.presses.map Press.disturb).map (fun p => (p.id, p.rule)) = s.handled := by
    simp [State.handled, Function.comp_def, Press.disturb]
  rw [← handled_bare]
  obtain ⟨i, m, rfl, hm⟩ | hr := rule_cases rules rule
  · rw [bare_dispatch_rule rules keys hm, State.handled, List.map_append, disturbed]
    simp [begun, Option.filter, hm]
  · have hn : rule.filter (fun i => rules[i]?.isSome) = none :=
      Option.filter_eq_none_iff.2 fun i hi => by simp [hr i hi]
    rw [bare_dispatch_plain rules keys hr, State.handled, List.map_append, disturbed, hn]
    rfl

/-- Only a press whose last key goes up is in flight no more. -/
theorem release_handled {k : Key} {s : State} {p : Press} (hk : s.holder? k = some p) (instant : Nat) :
    (release rules k instant s).handled =
      if (p.held.filter (· != k)).isEmpty then s.handled.filter fun o => o.1 != p.id else s.handled := by
  rw [← handled_bare, State.handled, release_presses rules hk]
  split
  · rw [← State.bare_drop, ← State.handled, handled_bare, State.drop, State.handled, State.handled,
      List.filter_map]
    rfl
  · rw [← handled_bare s]
    exact State.handled_updatePress (f := Press.keep _) (fun _ => ⟨rfl, rfl⟩) s.bare p.id

theorem fire_ended (s : State) (d : Deadline) (timer : Timer) :
    endedPresses (fire rules s d timer).journal = endedPresses s.journal := by
  have quiet : endedPresses (fireLines d timer) = [] := endedPresses_eq_nil fun l hl => by
    obtain rfl | ⟨p, -, rfl | rfl⟩ | ⟨p, i, -, -, rfl⟩ := fireLines_mem hl <;> rfl
  refine (filterMap_lines releases_of_sending (fire_journal rules s d timer)).trans ?_
  exact (congrArg _ quiet).trans (List.append_nil _)

theorem dispatchLines_ended (keys : List Key) (rule : Option Nat) (instant : Nat) (s : State) :
    endedPresses (dispatchLines rules keys rule instant s) = [] := endedPresses_eq_nil fun l hl => by
  rcases List.mem_cons.1 hl with rfl | hl
  · rfl
  · rcases List.mem_append.1 hl with hl | hl
    · obtain ⟨d, -, rfl | rfl⟩ := endings_mem hl <;> rfl
    · obtain ⟨i, rfl⟩ := beginLines_mem rules hl
      rfl

theorem dispatch_ended (keys : List Key) (rule : Option Nat) (instant : Nat) (s : State) :
    endedPresses (dispatch rules keys rule instant s).journal = endedPresses s.journal := by
  refine (filterMap_lines releases_of_sending (dispatch_journal rules keys rule instant s)).trans ?_
  exact (congrArg _ (dispatchLines_ended keys rule instant s)).trans (List.append_nil _)

theorem endLines_ended (p : Press) (i : Nat) (m : Manipulator) (instant : Nat) :
    endedPresses (endLines p i m instant) = [] := endedPresses_eq_nil fun l hl => by
  rcases endLines_mem hl with ⟨-, rfl⟩ | rfl <;> rfl

theorem release_ended {k : Key} {s : State} {p : Press} (hk : s.holder? k = some p) (instant : Nat) :
    endedPresses (release rules k instant s).journal =
      endedPresses s.journal ++ if (p.held.filter (· != k)).isEmpty then [p.id] else [] := by
  refine (filterMap_lines releases_of_sending (release_journal rules k instant s)).trans (congrArg _ ?_)
  simp only [releaseLines, hk]
  split
  · refine (List.filterMap_cons_some (f := Incident.releases?) rfl).trans (congrArg (p.id :: ·) ?_)
    obtain ⟨i, m, hr, hm⟩ | hr := rule_cases rules p.rule
    · rw [hr, Option.bind_some, hm]
      exact endLines_ended p i m instant
    · rw [bind_unmatched rules hr]
      rfl
  · rfl

theorem ended_note {l : Incident} (hl : l.releases? = none) (s : State) :
    endedPresses (s.note l).journal = endedPresses s.journal := by
  simp [endedPresses, State.note, hl]

/-- The delayed action that comes with a press has its number, its keys and its rule. -/
theorem dispatch_awaits {keys : List Key} {rule : Option Nat} {instant : Nat} {s : State} {d : Pending}
    (hd : d ∈ (dispatch rules keys rule instant s).pending) :
    d ∈ s.resting ∨ d.press = s.serial + 1 ∧ d.owners = keys ∧ rule = some d.rule := by
  rw [← State.bare_pending] at hd
  obtain ⟨i, m, rfl, hm⟩ | hr := rule_cases rules rule
  · rw [bare_dispatch_rule rules keys hm] at hd
    refine (List.mem_append.1 hd).imp_right fun hd => ?_
    unfold awaited at hd
    split at hd
    · obtain rfl := List.mem_singleton.1 hd
      exact ⟨rfl, rfl, rfl⟩
    · cases hd
  · rw [bare_dispatch_plain rules keys hr] at hd
    exact .inl hd

/-! ## Every moment of every run -/

variable (rules) in
structure Traced (s : State) : Prop where
  presses : ∀ o ∈ s.handled,
    ∃ b ∈ beginnings s.journal, b.press = o.1 ∧ o.2 = b.rule.filter fun i => rules[i]?.isSome
  pending : ∀ d ∈ s.pending, ⟨d.press, d.owners, some d.rule⟩ ∈ beginnings s.journal
  ended : ∀ press ∈ endedPresses s.journal, ∃ b ∈ beginnings s.journal, b.press = press

theorem Traced.narrow {s t : State} (h : Traced rules s) (begun : beginnings t.journal = beginnings s.journal)
    (handled : t.handled ⊆ s.handled)
    (pending : ∀ c ∈ t.pending, ∃ d ∈ s.pending, c.press = d.press ∧ c.owners = d.owners ∧ c.rule = d.rule)
    (ended : ∀ press ∈ endedPresses t.journal, press ∈ endedPresses s.journal ∨ press ∈ s.handled.map (·.1)) :
    Traced rules t where
  presses o ho := begun ▸ h.presses o (handled ho)
  pending c hc := by
    obtain ⟨d, hd, hp, hk, hr⟩ := pending c hc
    rw [begun, hp, hk, hr]
    exact h.pending d hd
  ended press hp := by
    rw [begun]
    rcases ended press hp with hp | hp
    · exact h.ended press hp
    · obtain ⟨o, ho, rfl⟩ := List.mem_map.1 hp
      obtain ⟨b, hb, hid, -⟩ := h.presses o ho
      exact ⟨b, hb, hid⟩

theorem Traced.congr {s t : State} (h : Traced rules s) (begun : beginnings t.journal = beginnings s.journal)
    (ended : endedPresses t.journal = endedPresses s.journal) (presses : t.presses = s.presses)
    (pending : t.pending = s.pending) : Traced rules t := by
  refine h.narrow begun ?_ (fun c hc => ⟨c, pending ▸ hc, rfl, rfl, rfl⟩) fun press hp => .inl (ended ▸ hp)
  rw [State.handled, presses]
  exact fun o ho => ho

theorem Traced.note {s : State} (h : Traced rules s) {l : Incident} (hb : l.begins? = none)
    (hr : l.releases? = none) : Traced rules (s.note l) :=
  h.congr (beginnings_note hb s) (ended_note hr s) rfl rfl

theorem Traced.fire {s : State} (h : Traced rules s) (d : Deadline) (timer : Timer) :
    Traced rules (fire rules s d timer) := by
  refine h.narrow (fire_beginnings s d timer) ?_ (fun c hc => ⟨c, (fire_pending s d timer).subset hc, rfl, rfl, rfl⟩)
    fun press hp => .inl ?_
  · rw [fire_handled]
    exact fun o ho => ho
  · rwa [fire_ended] at hp

theorem Traced.dispatch {s : State} (h : Traced rules s) (keys : List Key) (rule : Option Nat) (instant : Nat) :
    Traced rules (dispatch rules keys rule instant s) where
  presses o ho := by
    rw [dispatch_handled] at ho
    rw [dispatch_beginnings]
    rcases List.mem_append.1 ho with ho | ho
    · obtain ⟨b, hb, rest⟩ := h.presses o ho
      exact ⟨b, List.mem_append_left _ hb, rest⟩
    · obtain rfl := List.mem_singleton.1 ho
      exact ⟨_, List.mem_append_right _ (List.mem_singleton.2 rfl), rfl, rfl⟩
  pending d hd := by
    rw [dispatch_beginnings]
    obtain hd | ⟨hp, hk, hr⟩ := dispatch_awaits hd
    · exact List.mem_append_left _ (h.pending d (List.mem_filter.1 hd).1)
    · rw [hp, hk, ← hr]
      exact List.mem_append_right _ (List.mem_singleton.2 rfl)
  ended press hp := by
    rw [dispatch_ended] at hp
    obtain ⟨b, hb, hid⟩ := h.ended press hp
    rw [dispatch_beginnings]
    exact ⟨b, List.mem_append_left _ hb, hid⟩

theorem Traced.release {s : State} (h : Traced rules s) (k : Key) (instant : Nat) :
    Traced rules (release rules k instant s) := by
  cases hk : s.holder? k with
  | none =>
    rw [release_none rules hk]
    exact h.note rfl rfl
  | some p =>
    refine h.narrow (release_beginnings k instant s) ?_ (fun c hc => ?_) fun press hp => ?_
    · rw [release_handled hk]
      split
      · exact List.filter_subset_self _
      · exact fun o ho => ho
    · obtain ⟨ps, cs, n, he, -, kept⟩ := release_effect rules k instant s
      rw [← State.bare_pending, he] at hc
      obtain hc | ⟨d, hd, e, rfl⟩ := kept c hc
      · exact ⟨c, hc, rfl, rfl, rfl⟩
      · exact ⟨d, hd, rfl, rfl, rfl⟩
    · rw [release_ended hk] at hp
      refine (List.mem_append.1 hp).imp_right fun hp => ?_
      split at hp
      · rw [List.mem_singleton.1 hp]
        exact List.mem_map_of_mem (State.mem_handled (holder_mem hk).1)
      · cases hp

theorem Traced.handOver {s : State} (h : Traced rules s) (b : Buffer) (i : Nat) :
    Traced rules (handOver rules b i s) :=
  have emptied : Traced rules { s with buffer := none } := h.congr rfl rfl rfl rfl
  handOver_of emptied fun _ _ hu => hu.note rfl rfl

theorem Traced.move {x y : Session} (h : Traced rules x.state) (step : Move rules x y) : Traced rules y.state := by
  cases step with
  | fire first => exact h.fire _ _
  | dispatch simultaneous free oldest once single => exact h.dispatch _ _ _
  | @holdBack k instant i free oldest found together =>
    have hn : Traced rules (x.state.note (.buffered k (openCandidates rules x.state k) x.state.flags)) :=
      h.note rfl rfl
    exact hn.congr rfl rfl rfl rfl
  | join held oldest narrowed some_left => exact h.congr rfl rfl rfl rfl
  | close held due => exact h.note rfl rfl
  | finish held idle first ready =>
    simp only [finish_eq]
    exact (h.handOver _ _).dispatch _ _ _
  | @flush b held =>
    have hn : Traced rules (x.state.note (.flushed b.keys.length)) := h.note rfl rfl
    exact hn.congr rfl rfl rfl rfl

theorem Reachable.traced {x : Session} (h : Reachable rules x) : Traced rules x.state := by
  induction h with
  | start => exact ⟨fun _ ho => (List.not_mem_nil ho).elim, fun _ hd => (List.not_mem_nil hd).elim,
      fun _ hp => (List.not_mem_nil hp).elim⟩
  | move _ step ih => exact ih.move step
  | @tick x _ _ instant ih =>
    have later : Traced rules { x.state with now := max x.state.now instant } := ih.congr rfl rfl rfl rfl
    exact State.tick_of later fun _ _ _ hu => hu.note rfl rfl
  | accept _ _ _ ih => exact ih.note rfl rfl
  | refuse _ _ _ ih => exact ih.note rfl rfl
  | release _ _ _ ih => exact ih.release _ _
  | take _ _ ih => exact ih.congr rfl rfl rfl rfl

end

end KeyRules.Engine
