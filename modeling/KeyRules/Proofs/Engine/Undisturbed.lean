import KeyRules.Proofs.Engine.Precedence

/-!
# Presses that nothing disturbed

A press that begins disturbs all others. So a press that is alone began last, and no other one has a hold timer. A
press of a rule for a single key without a hold has just that key and no hold timer either (`Reachable.undisturbed`).
-/

namespace KeyRules.Engine

section
variable {rules : List Manipulator}

/-- The press `r` has become `q`: nothing was started for it. -/
structure Press.From (q r : Press) : Prop where
  id_eq : q.id = r.id
  rule_eq : q.rule = r.rule
  alone : q.isAlone = true → r.isAlone = true
  timed : q.holdTimer.isSome = true → r.holdTimer.isSome = true
  held_sublist : q.held.Sublist r.held

theorem Press.From.refl (q : Press) : q.From q := ⟨rfl, rfl, fun h => h, fun h => h, .refl _⟩

theorem Press.fired_from (q : Press) : q.fired.From q :=
  ⟨rfl, rfl, fun h => h, fun h => (Bool.false_ne_true h).elim, .refl _⟩

theorem Press.disturb_from (q : Press) : q.disturb.From q :=
  ⟨rfl, rfl, fun h => (Bool.false_ne_true h).elim, fun h => (Bool.false_ne_true h).elim, .refl _⟩

theorem from_of_bare {s t : State} (h : ∀ q ∈ t.bare.presses, ∃ r ∈ s.bare.presses, q.From r) :
    ∀ q ∈ t.presses, ∃ r ∈ s.presses, q.From r := by
  intro q hq
  obtain ⟨r, hr, hf⟩ := h q.bare (List.mem_map_of_mem hq)
  obtain ⟨c, hc, rfl⟩ := List.mem_map.1 hr
  exact ⟨c, hc, hf.id_eq, hf.rule_eq, hf.alone, hf.timed, hf.held_sublist⟩

theorem updatePress_from {s : State} {id : Nat} {f : Press → Press}
    (hf : ∀ r ∈ s.presses, r.id = id → (f r).From r) :
    ∀ q ∈ (s.updatePress id f).presses, ∃ r ∈ s.presses, q.From r := by
  intro q hq
  obtain ⟨r, hr, rfl⟩ := List.mem_map.1 hq
  refine ⟨r, hr, ?_⟩
  by_cases h : r.id = id
  · rw [if_pos h]
    exact hf r hr h
  · rw [if_neg h]
    exact .refl r

theorem drop_from {s : State} {id : Nat} : ∀ q ∈ (s.drop id).presses, ∃ r ∈ s.presses, q.From r :=
  fun q hq => ⟨q, (List.mem_filter.1 hq).1, .refl q⟩

theorem fire_from (s : State) (d : Deadline) (timer : Timer) :
    ∀ q ∈ (fire rules s d timer).presses, ∃ r ∈ s.presses, q.From r := by
  refine from_of_bare ?_
  cases timer with
  | countdown p =>
    rw [fire, bare_fireCountdown, State.bare_note rfl]
    exact fun q hq => ⟨q, hq, .refl q⟩
  | hold p =>
    have marked : ∀ q ∈ (s.bare.updatePress p.id Press.fired).presses, ∃ r ∈ s.bare.presses, q.From r :=
      updatePress_from fun r _ _ => r.fired_from
    rw [fire]
    cases hp : p.rule with
    | none =>
      rw [bare_fireHold_plain rules _ hp, State.bare_note rfl]
      exact marked
    | some i =>
      rw [bare_fireHold rules _ hp, State.bare_note rfl]
      split
      · exact marked
      · exact marked

theorem release_from {s : State} (h : Orderly rules s) (k : Key) (instant : Nat) :
    ∀ q ∈ (release rules k instant s).presses, ∃ r ∈ s.presses, q.From r := by
  cases hk : s.holder? k with
  | none =>
    rw [release_none rules hk]
    exact fun q hq => ⟨q, hq, .refl q⟩
  | some p =>
    refine from_of_bare ?_
    rw [release_presses rules hk]
    split
    · exact drop_from
    · refine updatePress_from fun r hr hid => ?_
      -- the id tells which press lets go of the key
      obtain ⟨c, hc, rfl⟩ := List.mem_map.1 hr
      obtain rfl := h.press_unique hc (holder_mem hk).1 hid
      exact ⟨rfl, rfl, fun h => h, fun h => h, List.filter_sublist⟩

theorem dispatch_from (keys : List Key) (rule : Option Nat) (instant : Nat) (s : State) :
    ∀ q ∈ (dispatch rules keys rule instant s).presses,
      (∃ r ∈ s.presses, q.From r ∧ q.isAlone = false ∧ q.holdTimer = none) ∨
        q.id = s.serial + 1 ∧ q.held = keys ∧ ∀ i, q.rule = some i →
          rule = some i ∧ ∃ m, rules[i]? = some m ∧ q.holdTimer.isSome = m.holdThreshold.isSome := by
  intro q hq
  have hq : q.bare ∈ (dispatch rules keys rule instant s).bare.presses := List.mem_map_of_mem hq
  have old : ∀ p : Press, q.bare ∈ s.bare.presses.map Press.disturb ++ [p] →
      (∃ r ∈ s.presses, q.From r ∧ q.isAlone = false ∧ q.holdTimer = none) ∨ q.bare = p := by
    intro p hp
    rcases List.mem_append.1 hp with hp | hp
    · obtain ⟨c, hc, he⟩ := List.mem_map.1 hp
      obtain ⟨r, hr, rfl⟩ := List.mem_map.1 hc
      have hf : q.bare.From r.bare := he ▸ Press.disturb_from _
      have ha : q.bare.isAlone = false := he ▸ rfl
      have ht : q.bare.holdTimer = none := he ▸ rfl
      exact .inl ⟨r, hr, ⟨hf.id_eq, hf.rule_eq, hf.alone, hf.timed, hf.held_sublist⟩, ha, ht⟩
    · exact .inr (List.mem_singleton.1 hp)
  obtain ⟨i, m, rfl, hm⟩ | hr := rule_cases rules rule
  · rw [bare_dispatch_rule rules keys hm] at hq
    refine (old _ hq).imp_right fun he => ?_
    have hid : q.bare.id = s.serial + 1 := he ▸ rfl
    have hheld : q.bare.held = keys := he ▸ rfl
    have hrule : q.bare.rule = some i := he ▸ rfl
    have ht : q.bare.holdTimer.isSome = m.holdThreshold.isSome := by
      rw [he]
      exact Option.isSome_map
    refine ⟨hid, hheld, fun j hj => ?_⟩
    obtain rfl : i = j := Option.some.inj (hrule.symm.trans hj)
    exact ⟨rfl, m, hm, ht⟩
  · rw [bare_dispatch_plain rules keys hr] at hq
    refine (old _ hq).imp_right fun he => ?_
    have hid : q.bare.id = s.serial + 1 := he ▸ rfl
    have hheld : q.bare.held = keys := he ▸ rfl
    have hrule : q.bare.rule = none := he ▸ rfl
    refine ⟨hid, hheld, fun j hj => ?_⟩
    cases hrule.symm.trans hj

/-! ## At every moment -/

/-- A press that is alone began last, and the presses of rule `i` are short. -/
structure Undisturbed (i : Nat) (s : State) : Prop where
  last : ∀ p ∈ s.presses, p.isAlone = true → ∀ q ∈ s.presses, q.id ≠ p.id → q.isAlone = false ∧ q.holdTimer = none
  short : ∀ p ∈ s.presses, p.rule = some i → p.held.length ≤ 1 ∧ p.holdTimer = none

section
variable {i : Nat} {m : Manipulator} {s t : State}

theorem Undisturbed.from (h : Undisturbed i s) (hf : ∀ q ∈ t.presses, ∃ r ∈ s.presses, q.From r) :
    Undisturbed i t where
  last p hp alone q hq hne := by
    obtain ⟨r, hr, fp⟩ := hf p hp
    obtain ⟨c, hc, fq⟩ := hf q hq
    have hne : c.id ≠ r.id := by
      rw [← fp.id_eq, ← fq.id_eq]
      exact hne
    obtain ⟨ha, ht⟩ := h.last r hr (fp.alone alone) c hc hne
    refine ⟨Bool.eq_false_iff.2 fun hq => ?_, Option.not_isSome_iff_eq_none.1 fun hq => ?_⟩
    · rw [fq.alone hq] at ha
      cases ha
    · have := fq.timed hq
      rw [ht] at this
      cases this
  short p hp hr := by
    obtain ⟨r, hm, fp⟩ := hf p hp
    obtain ⟨held, ht⟩ := h.short r hm (fp.rule_eq ▸ hr)
    refine ⟨Nat.le_trans fp.held_sublist.length_le held, Option.not_isSome_iff_eq_none.1 fun hp => ?_⟩
    have := fp.timed hp
    rw [ht] at this
    cases this

theorem Undisturbed.dispatch (h : Undisturbed i s) (hm : rules[i]? = some m) (untimed : m.holdThreshold = none)
    {keys : List Key} {rule : Option Nat} (single : rule = some i → keys.length ≤ 1) (instant : Nat) :
    Undisturbed i (dispatch rules keys rule instant s) where
  last p hp alone q hq hne := by
    obtain ⟨c, hc, -, hn⟩ | ⟨hid, -⟩ := dispatch_from keys rule instant s q hq
    · exact hn
    · obtain ⟨r, hr, -, hn, -⟩ | ⟨hidp, -⟩ := dispatch_from keys rule instant s p hp
      · rw [alone] at hn
        cases hn
      · exact absurd (hid.trans hidp.symm) hne
  short p hp hr := by
    obtain ⟨c, hc, hf, -, hn⟩ | ⟨-, hheld, hrule⟩ := dispatch_from keys rule instant s p hp
    · exact ⟨Nat.le_trans hf.held_sublist.length_le (h.short c hc (hf.rule_eq ▸ hr)).1, hn⟩
    · obtain ⟨he, n, hn, ht⟩ := hrule i hr
      obtain rfl : m = n := Option.some.inj (hm.symm.trans hn)
      rw [untimed] at ht
      exact ⟨hheld.symm ▸ single he, Option.not_isSome_iff_eq_none.1 (by rw [ht]; exact Bool.false_ne_true)⟩

theorem Reachable.finish_together {x : Session} (hx : Reachable rules x) {b : Buffer} {j : Nat}
    (held : x.state.buffer = some b) (first : complete? rules b = some j) :
    rules[j]?.any (·.trigger.isTogether) = true := by
  obtain ⟨o, ho⟩ := hx.preceded.opened b held
  exact ho.together j (ho.candidates (List.mem_of_find?_eq_some first))

theorem Undisturbed.move {x y : Session} (h : Undisturbed i x.state) (hx : Reachable rules x)
    (hm : rules[i]? = some m) (single : m.trigger.isTogether = false) (untimed : m.holdThreshold = none)
    (step : Move rules x y) : Undisturbed i y.state := by
  cases step with
  | fire first => exact h.from (fire_from _ _ _)
  | @dispatch k instant later simultaneous free oldest once alone =>
    exact h.dispatch hm untimed (fun _ => Nat.le_of_eq List.length_singleton) _
  | holdBack free oldest found together => exact ⟨h.last, h.short⟩
  | join held oldest narrowed some_left => exact ⟨h.last, h.short⟩
  | close held due => exact ⟨h.last, h.short⟩
  | @finish b j held idle first ready =>
    have together := hx.finish_together held first
    obtain ⟨more, hs, -⟩ := handOver_eq rules b j x.state
    have ht : Undisturbed i (handOver rules b j x.state) := by
      rw [hs]
      exact ⟨h.last, h.short⟩
    simp only [finish_eq]
    refine ht.dispatch hm untimed (fun he => ?_) _
    obtain rfl := Option.some.inj he
    rw [hm, Option.any_some, single] at together
    cases together
  | flush held => exact ⟨h.last, h.short⟩

theorem Reachable.undisturbed {x : Session} (hx : Reachable rules x) (hm : rules[i]? = some m)
    (single : m.trigger.isTogether = false) (untimed : m.holdThreshold = none) : Undisturbed i x.state := by
  induction hx with
  | start => exact ⟨fun _ hp => (List.not_mem_nil hp).elim, fun _ hp => (List.not_mem_nil hp).elim⟩
  | move hx step ih => exact ih.move hx hm single untimed step
  | @tick x _ _ instant ih =>
    obtain ⟨more, ht, -⟩ := x.state.tick_eq instant
    rw [ht]
    exact ⟨ih.last, ih.short⟩
  | accept _ _ _ ih => exact ⟨ih.last, ih.short⟩
  | refuse _ _ _ ih => exact ⟨ih.last, ih.short⟩
  | release hx _ _ ih => exact ih.from (release_from hx.orderly _ _)
  | take _ _ ih => exact ⟨ih.last, ih.short⟩

end

end

end KeyRules.Engine
