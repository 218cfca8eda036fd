import KeyRules.Proofs.Engine.Outcomes
import KeyRules.Proofs.Engine.Timers

/-!
# Rules with keys of their own

Where every rule has one ungated key of its own, nothing is ever buffered: each accepted key begins a press at once,
of the rule that has the key. So the presses of a rule are the accepted key-downs of its key
(`Reachable.begun_count`).
-/

namespace KeyRules.Engine

/-- Every rule is for one key, without gates, and no two are for the same. -/
structure Exclusive (rules : List Manipulator) : Prop where
  single : ∀ m ∈ rules, ∃ k, m.trigger = .ofKey k
  ungated : ∀ m ∈ rules, m.gates = []
  distinct : (rules.map (·.trigger)).Nodup

section
variable {rules : List Manipulator}

theorem Exclusive.reactsTo {s : State} {k j : Key} {simultaneous : Bool} {m : Manipulator}
    (h : Exclusive rules) (hm : m ∈ rules) (hj : m.trigger = .ofKey j) :
    reactsTo s k simultaneous m = (j == k) := by
  simp [Engine.reactsTo, State.gatesOpen, h.ungated m hm, hj, Trigger.ofKey]

theorem Exclusive.findRule_iff (h : Exclusive rules) {i : Nat} {m : Manipulator} (hm : rules[i]? = some m)
    {s : State} {k : Key} {simultaneous : Bool} :
    findRule rules s k simultaneous = some i ↔ m.trigger = .ofKey k := by
  obtain ⟨hi, rfl⟩ := List.getElem?_eq_some_iff.1 hm
  obtain ⟨j, hj⟩ := h.single _ (List.getElem_mem hi)
  have hk : rules[i].trigger = .ofKey k ↔ j = k := by rw [hj]; simp [Trigger.ofKey]
  rw [hk]
  constructor
  · intro hf
    obtain ⟨hi, hr, -⟩ := List.findIdx?_eq_some_iff_getElem.1 hf
    rw [h.reactsTo (List.getElem_mem hi) hj] at hr
    exact eq_of_beq hr
  · rintro rfl
    refine List.findIdx?_eq_some_iff_getElem.2 ⟨hi, ?_, fun n hn => ?_⟩
    · rw [h.reactsTo (List.getElem_mem hi) hj]
      exact beq_self_eq_true j
    · obtain ⟨l, hl⟩ := h.single _ (List.getElem_mem (Nat.lt_trans hn hi))
      rw [h.reactsTo (List.getElem_mem _) hl]
      intro he
      -- two rules with one trigger stand at one place
      have ht : (rules.map (·.trigger))[n]? = (rules.map (·.trigger))[i]? := by
        rw [List.getElem?_map, List.getElem?_map, List.getElem?_eq_getElem hi,
          List.getElem?_eq_getElem (Nat.lt_trans hn hi)]
        simp [hl, hj, eq_of_beq he]
      have := (List.getElem?_inj (by simpa using Nat.lt_trans hn hi) h.distinct).1 ht
      omega

theorem Exclusive.together (h : Exclusive rules) (i : Nat) : rules[i]?.any (·.trigger.isTogether) = false := by
  cases hm : rules[i]? with
  | none => rfl
  | some m =>
    obtain ⟨k, hk⟩ := h.single m (List.mem_of_getElem? hm)
    simp [hk, Trigger.ofKey, Trigger.isTogether]

theorem Reachable.unbuffered {x : Session} (hx : Reachable rules x) (h : Exclusive rules) :
    x.state.buffer = none := by
  induction hx with
  | start => rfl
  | @move x y _ step ih =>
    cases step with
    | fire first => exact (fire_frame rules _ _ _).1.trans ih
    | dispatch simultaneous free oldest once single => exact (dispatch_frame rules _ _ _ _).1.trans ih
    | holdBack free oldest found together => rw [h.together] at together; cases together
    | join held oldest narrowed some_left => rw [ih] at held; cases held
    | close held due => exact ih
    | finish held idle first ready => exact (finish_frame rules _ _ _).1
    | flush held => rfl
  | @tick x _ _ instant ih =>
    obtain ⟨more, ht, -⟩ := x.state.tick_eq instant
    rw [ht]
    exact ih
  | accept _ _ _ ih => exact ih
  | refuse _ _ _ ih => exact ih
  | release _ _ _ ih => exact (release_frame rules _ _ _).1.trans ih
  | take _ _ ih => exact ih

/-! ## Presses and their keys -/

variable (rules) in
/-- The press is for one key, and of the rule that has it. -/
def Beginning.Matches (b : Beginning) : Prop :=
  ∃ k, b.keys = [k] ∧ ∀ i m, rules[i]? = some m → (b.rule = some i ↔ m.trigger = .ofKey k)

theorem Reachable.matches {x : Session} (hx : Reachable rules x) (h : Exclusive rules) :
    ∀ b ∈ beginnings x.state.journal, b.Matches rules := by
  induction hx with
  | start => exact fun b hb => (List.not_mem_nil hb).elim
  | @move x y hx step ih =>
    cases step with
    | fire first =>
      simp only [fire_beginnings]
      exact ih
    | @dispatch k instant later simultaneous free oldest once single =>
      intro b hb
      simp only [dispatch_beginnings] at hb
      rcases List.mem_append.1 hb with hb | hb
      · exact ih b hb
      · rw [List.mem_singleton.1 hb]
        exact ⟨k, rfl, fun i m hm => h.findRule_iff hm⟩
    | holdBack free oldest found together => rw [h.together] at together; cases together
    | join held oldest narrowed some_left => exact ih
    | close held due =>
      simp only [beginnings_note (i := .windowClosed _) rfl]
      exact ih
    | finish held idle first ready => rw [hx.unbuffered h] at held; cases held
    | flush held => rw [hx.unbuffered h] at held; cases held
  | @tick x _ _ instant ih =>
    simp only [tick_beginnings]
    exact ih
  | accept _ _ _ ih =>
    simp only [beginnings_note (i := .accepted _ _) rfl]
    exact ih
  | refuse _ _ _ ih =>
    simp only [beginnings_note (i := .repeatedDown _) rfl]
    exact ih
  | release _ _ _ ih =>
    simp only [release_beginnings]
    exact ih
  | take _ _ ih => exact ih

theorem begunBy_length {i : Nat} {m : Manipulator} (hm : rules[i]? = some m) {k : Key}
    (hk : m.trigger = .ofKey k) {journal : List Incident}
    (hb : ∀ b ∈ beginnings journal, b.Matches rules) :
    (begunBy i journal).length = (dispatchedKeys journal).count k := by
  unfold begunBy dispatchedKeys
  rw [List.length_map]
  generalize beginnings journal = bs at hb
  induction bs with
  | nil => rfl
  | cons b bs ih =>
    have ih := ih fun c hc => hb c (List.mem_cons_of_mem _ hc)
    obtain ⟨j, hj, hr⟩ := hb b List.mem_cons_self
    have hr := hr i m hm
    rw [hk] at hr
    rw [List.flatMap_cons, List.count_append, hj, List.count_singleton]
    by_cases he : j = k
    · rw [List.filter_cons_of_pos (by simpa using hr.2 (by rw [he])), List.length_cons, ih]
      simp [he, Nat.add_comm]
    · have hn : ¬(b.rule == some i) = true := fun hb =>
        he (by simpa [Trigger.ofKey, eq_comm] using hr.1 (eq_of_beq hb))
      rw [List.filter_cons_of_neg (p := fun b : Beginning => b.rule == some i) hn, ih]
      simp [he]

/-- The presses of a rule are the accepted key-downs of its key. -/
theorem Reachable.begun_count {x : Session} (hx : Reachable rules x) (h : Exclusive rules)
    (idle : x.waiting = []) {i : Nat} {m : Manipulator} (hm : rules[i]? = some m) {k : Key}
    (hk : m.trigger = .ofKey k) : (begunBy i x.state.journal).length = x.accepted.count k := by
  have ha := hx.accounted
  rw [State.buffered_of_none (hx.unbuffered h), Session.waitingKeys, idle] at ha
  simp only [List.map_nil, List.append_nil] at ha
  rw [begunBy_length hm hk (hx.matches h), ha]

/-! ## Countdowns that a repeated key drops -/

variable (rules) in
/-- The delayed action is owned by the key of its rule. -/
def Pending.Matches (d : Pending) : Prop :=
  ∃ k, d.owners = [k] ∧ ∀ m, rules[d.rule]? = some m → m.trigger = .ofKey k

theorem Reachable.owners {x : Session} (hx : Reachable rules x) (h : Exclusive rules) :
    ∀ d ∈ x.state.pending, d.Matches rules := by
  induction hx with
  | start => exact fun d hd => (List.not_mem_nil hd).elim
  | @move x y hx step ih =>
    cases step with
    | fire first => exact fun d hd => ih d ((fire_pending _ _ _).subset hd)
    | @dispatch k instant later simultaneous free oldest once single =>
      intro d hd
      rcases dispatch_pending hd with hd | ⟨ho, hr⟩
      · exact ih d hd
      · exact ⟨k, ho, fun m hm => (h.findRule_iff hm).1 hr⟩
    | holdBack free oldest found together => rw [h.together] at together; cases together
    | join held oldest narrowed some_left => exact ih
    | close held due => exact ih
    | finish held idle first ready => rw [hx.unbuffered h] at held; cases held
    | flush held => exact ih
  | @tick x _ _ instant ih =>
    obtain ⟨more, ht, -⟩ := x.state.tick_eq instant
    rw [ht]
    exact ih
  | accept _ _ _ ih => exact ih
  | refuse _ _ _ ih => exact ih
  | release _ _ _ ih =>
    intro c hc
    obtain ⟨d, hd, ho, hr⟩ := release_pending hc
    obtain ⟨k, hk, hm⟩ := ih d hd
    exact ⟨k, ho.trans hk, fun m hn => hm m (hr ▸ hn)⟩
  | take _ _ ih => exact ih

theorem Exclusive.press_eq (h : Exclusive rules) (k : Key) (instant : Nat) (simultaneous : Bool) (s : State) :
    press rules k instant simultaneous s =
      dispatch rules [k] (findRule rules s k simultaneous) instant s := by
  unfold press
  cases findRule rules s k simultaneous with
  | none => rfl
  | some i =>
    simp only [h.together]
    rfl

theorem advanceTo_drops {s : State} (free : s.buffer = none) (i instant : Nat) :
    drops i (advanceTo rules instant s).journal = drops i s.journal := by
  obtain ⟨more, ht, hl⟩ := s.tick_eq instant
  have hb : (s.tick instant).buffer = none := by rw [ht]; exact free
  have hj : drops i (s.tick instant).journal = drops i s.journal := by
    rw [ht]
    have hm : drops i more = [] := drops_eq_nil fun l hm => by
      obtain ⟨t, n, rfl⟩ := hl l hm
      rfl
    simp [State.noteAll, hm]
  have hf : ∀ n t, drops i (fireWhile rules (·.instant ≤ (s.tick instant).now) n t).journal = drops i t.journal := by
    intro n
    induction n with
    | zero => exact fun _ => rfl
    | succ n ih =>
      intro t
      simp only [fireWhile]
      split
      · rfl
      · split
        · exact (ih _).trans (fire_drops i _ _ _)
        · rfl
  simp only [advanceTo, fireDue, hb]
  exact (hf _ _).trans hj

variable (rules) in
/-- The countdowns of rule `i` that an accepted key-down of key `k` finds running. -/
def overtaken (i : Nat) (k : Key) (s : State) : Input → List Nat
  | .down j instant =>
    if j = k ∧ (advanceTo rules instant s).isDown k = false then
      awaitingOf i (advanceTo rules instant s).running
    else []
  | _ => []

/-- A countdown of the rule is dropped by the key of the rule and by no other. -/
theorem overtaken_filter {i : Nat} {m : Manipulator} (hm : rules[i]? = some m) {k : Key}
    (hk : m.trigger = .ofKey k) (j : Key) {ds : List Pending} (hd : ∀ d ∈ ds, d.Matches rules) :
    awaitingOf i (ds.filter fun d => d.owners.any (· ∈ [j])) = if j = k then awaitingOf i ds else [] := by
  unfold awaitingOf
  rw [List.filter_filter]
  have own : ∀ d ∈ ds, d.rule = i → d.owners = [k] := by
    intro d hd' hr
    obtain ⟨l, hl, ht⟩ := hd d hd'
    have hkl := ht m (hr ▸ hm)
    rw [hk] at hkl
    rw [hl]
    simpa [Trigger.ofKey, eq_comm] using hkl
  by_cases hj : j = k
  · subst hj
    rw [if_pos rfl]
    congr 1
    refine List.filter_congr fun d hd' => ?_
    by_cases hr : d.rule = i
    · simp [hr, own d hd' hr]
    · simp [hr]
  · rw [if_neg hj, List.map_eq_nil_iff, List.filter_eq_nil_iff]
    intro d hd'
    by_cases hr : d.rule = i
    · simp [own d hd' hr, Ne.symm hj]
    · simp [hr]

theorem Exclusive.accept_drops (h : Exclusive rules) {s : State} (free : s.buffer = none)
    (hd : ∀ d ∈ s.pending, d.Matches rules) {i : Nat} {m : Manipulator} (hm : rules[i]? = some m) {k : Key}
    (hk : m.trigger = .ofKey k) (j : Key) :
    drops i (accept rules j s).journal =
      drops i s.journal ++ if j = k then awaitingOf i s.running else [] := by
  have ha : accept rules j s = press rules j s.now true (s.note (.accepted j s.now)) := by
    have hb : (s.note (.accepted j s.now)).buffer = none := free
    simp only [accept, hb]
    rfl
  rw [ha, h.press_eq, dispatch_drops, drops_note rfl]
  exact congrArg _ (overtaken_filter hm hk j fun d hr => hd d (List.mem_filter.1 hr).1)

theorem Exclusive.step_drops (h : Exclusive rules) {x : Session} (hx : Reachable rules x) (idle : x.waiting = [])
    {i : Nat} {m : Manipulator} (hm : rules[i]? = some m) {k : Key} (hk : m.trigger = .ofKey k) (input : Input) :
    drops i (step rules x.state input).journal =
      drops i x.state.journal ++ overtaken rules i k x.state input := by
  have hd : ∀ instant, drops i (advanceTo rules instant x.state).journal = drops i x.state.journal :=
    advanceTo_drops (hx.unbuffered h) i
  cases input with
  | advance instant => exact (hd instant).trans (List.append_nil _).symm
  | take => exact (List.append_nil _).symm
  | up j instant =>
    have hb : (advanceTo rules instant x.state).buffer = none := (hx.advanceTo idle instant).unbuffered h
    have hf : flushHolding rules j (advanceTo rules instant x.state) = advanceTo rules instant x.state := by
      unfold flushHolding
      rw [hb]
    simp only [step, keyUp, hf, release_drops, overtaken, List.append_nil]
    exact hd instant
  | down j instant =>
    have ha := hx.advanceTo idle instant
    simp only [step, keyDown, overtaken]
    cases hj : (advanceTo rules instant x.state).isDown j with
    | true =>
      have hn : ¬(j = k ∧ (advanceTo rules instant x.state).isDown k = false) := by
        rintro ⟨rfl, hf⟩
        rw [hj] at hf
        cases hf
      rw [if_pos rfl, if_neg hn, List.append_nil]
      exact (drops_note rfl _).trans (hd instant)
    | false =>
      rw [if_neg Bool.false_ne_true, h.accept_drops (ha.unbuffered h) (ha.owners h) hm hk, hd]
      by_cases he : j = k
      · subst he
        rw [if_pos rfl, if_pos ⟨rfl, hj⟩]
      · rw [if_neg he, if_neg fun hc => he hc.1]

theorem overtaken_eq_nil {i : Nat} {k : Key} {s : State} {input : Input} :
    overtaken rules i k s input = [] ↔ ∀ t, input = .down k t → (advanceTo rules t s).isDown k = false →
      ∀ d ∈ (advanceTo rules t s).pending, d.rule = i → d.deadline = none := by
  have hr : ∀ t : State, awaitingOf i t.running = [] ↔ ∀ d ∈ t.pending, d.rule = i → d.deadline = none := by
    intro t
    simp only [awaitingOf, State.running, List.map_eq_nil_iff, List.filter_eq_nil_iff, List.mem_filter, beq_iff_eq,
      and_imp]
    refine forall_congr' fun d => forall_congr' fun hd => ?_
    cases d.deadline <;> simp
  cases input with
  | down j t =>
    simp only [overtaken]
    split
    · rename_i hc
      rw [hr]
      constructor
      · rintro hn u hu - d hd
        cases hu
        exact hn d hd
      · rintro hn
        exact hn t (by rw [hc.1]) hc.2
    · rename_i hc
      refine ⟨fun _ u hu hd => ?_, fun _ => rfl⟩
      cases hu
      exact absurd ⟨rfl, hd⟩ hc
  | _ => exact ⟨fun _ t ht => Input.noConfusion ht, fun _ => rfl⟩

/-- No countdown of a rule is dropped exactly in a run in which no accepted key-down of its key finds one running. -/
theorem Exclusive.drops_eq_nil_iff (h : Exclusive rules) {i : Nat} {m : Manipulator} (hm : rules[i]? = some m)
    {k : Key} (hk : m.trigger = .ofKey k) (inputs : List Input) :
    drops i (run rules inputs).journal = [] ↔ ∀ before t after, inputs = before ++ .down k t :: after →
      (advanceTo rules t (run rules before)).isDown k = false →
      ∀ d ∈ (advanceTo rules t (run rules before)).pending, d.rule = i → d.deadline = none := by
  induction inputs using List.reverseRecOn with
  | nil => simp [run, drops]
  | append_singleton inputs last ih =>
    obtain ⟨hx, idle⟩ := reachable_session rules inputs
    have hs := h.step_drops hx idle hm hk last
    rw [session_state] at hs
    have hr : run rules (inputs ++ [last]) = step rules (run rules inputs) last := by
      simp [run, List.foldl_append]
    rw [hr, hs, List.append_eq_nil_iff, ih, overtaken_eq_nil]
    constructor
    · rintro ⟨earlier, final⟩ before t after he
      rcases List.eq_nil_or_concat after with rfl | ⟨rest, c, rfl⟩
      · obtain ⟨rfl, hl⟩ := List.append_inj' he rfl
        exact final t (List.singleton_inj.1 hl)
      · rw [List.concat_eq_append, ← List.cons_append, ← List.append_assoc] at he
        obtain ⟨rfl, -⟩ := List.append_inj' he rfl
        exact earlier before t rest rfl
    · intro hall
      refine ⟨fun before t after he => hall before t (after ++ [last]) (by simp [he]), fun t he => ?_⟩
      exact hall inputs t [] (by rw [he])

/-- A run that ends late enough after every key went up decides each press of a rule: the outcomes of the rule
are as many as the accepted key-downs of its key. -/
theorem Exclusive.outcomes (h : Exclusive rules) {i : Nat} {m : Manipulator} (hm : rules[i]? = some m)
    (final : Decisive m) {k : Key} (hk : m.trigger = .ofKey k) {events : List Input}
    (released : allReleased events = true) {last : Nat}
    (past : ∀ r ∈ (session rules events).releases, ∀ m ∈ rules, ∀ l, m.delayed = some l →
      r + l.delay.toNat ≤ last) :
    (settlements i (run rules (events ++ [.advance last])).journal).length =
      (session rules (events ++ [.advance last])).accepted.count k := by
  obtain ⟨hx, idle⟩ := reachable_session rules events
  obtain ⟨hy, rest⟩ := reachable_session rules (events ++ [.advance last])
  have hs : session rules (events ++ [.advance last]) = (session rules events).step rules (.advance last) :=
    session_append rules events _
  have up : (session rules (events ++ [.advance last])).down = [] := by
    rw [hs]
    exact session_down rules released
  have fired : ∀ e ∈ (session rules (events ++ [.advance last])).state.timers, last < e.1.instant := by
    rw [hs]
    exact hx.advanceTo_timers idle last
  have pending := hy.pending_nil (hy.tracked.presses_nil up) fired (by rw [hs]; exact past)
  have hd := (hy.decided hm final).settled.length_eq
  rw [pending, hy.begun_count h rest hm hk] at hd
  rw [← session_state, ← hd]
  simp [awaitingOf]

end

end KeyRules.Engine
