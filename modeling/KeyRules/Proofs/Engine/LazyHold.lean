import KeyRules.Proofs.Engine.LazyKeys
import KeyRules.Proofs.Engine.Undisturbed

/-!
# Lazy holds

The keys that a rule holds lazily wait while the press is alone, until a delayed action of a press before it sends a
key that is no modifier. Nothing else sends one in between: another press would disturb this one, a hold timer runs
for this press only, and the presses that end were disturbed by it. When the press ends its lazy keys are gone, so
what was sent by then is what was sent at all (`Reachable.lazily`).
-/

namespace KeyRules.Engine

section
variable (rules : List Manipulator)

/-- A delayed action sent a key that is no modifier. -/
def TakenAlong (lines : List Incident) : Prop :=
  ∃ press rule, .emitted press rule .invoked ∈ lines ∧ (eventsOf rules rule onInvoked).any takesAlong = true

variable {rules}

theorem takenAlong_append {lines more : List Incident} :
    TakenAlong rules (lines ++ more) ↔ TakenAlong rules lines ∨ TakenAlong rules more := by
  constructor
  · rintro ⟨press, rule, hl, takes⟩
    rcases List.mem_append.1 hl with hl | hl
    · exact .inl ⟨press, rule, hl, takes⟩
    · exact .inr ⟨press, rule, hl, takes⟩
  · rintro (⟨press, rule, hl, takes⟩ | ⟨press, rule, hl, takes⟩)
    · exact ⟨press, rule, List.mem_append_left _ hl, takes⟩
    · exact ⟨press, rule, List.mem_append_right _ hl, takes⟩

theorem not_takenAlong {lines : List Incident} (h : ∀ press rule, .emitted press rule .invoked ∉ lines) :
    ¬TakenAlong rules lines := by
  rintro ⟨press, rule, hl, -⟩
  exact h press rule hl

/-- The lines since a press of rule `i` began. -/
def Since (journal : List Incident) (id i : Nat) (during : List Incident) : Prop :=
  ∃ earlier keys instant flags, journal = earlier ++ .dispatched id keys (some i) instant flags :: during

/-- The lines between the start and the end of a press of rule `i`. -/
def Between (journal : List Incident) (id i : Nat) (during : List Incident) : Prop :=
  ∃ earlier keys instant flags after,
    journal = earlier ++ .dispatched id keys (some i) instant flags :: (during ++ .released id :: after)

theorem Since.append {journal during : List Incident} {id i : Nat} (h : Since journal id i during)
    (more : List Incident) : Since (journal ++ more) id i (during ++ more) := by
  obtain ⟨earlier, keys, instant, flags, rfl⟩ := h
  exact ⟨earlier, keys, instant, flags, by simp⟩

theorem Since.released {journal during : List Incident} {id i : Nat} (h : Since journal id i during)
    (after : List Incident) : Between (journal ++ .released id :: after) id i during := by
  obtain ⟨earlier, keys, instant, flags, rfl⟩ := h
  exact ⟨earlier, keys, instant, flags, after, by simp⟩

theorem Between.append {journal during : List Incident} {id i : Nat} (h : Between journal id i during)
    (more : List Incident) : Between (journal ++ more) id i during := by
  obtain ⟨earlier, keys, instant, flags, after, rfl⟩ := h
  exact ⟨earlier, keys, instant, flags, after ++ more, by simp⟩

variable (rules) in
/-- The lazy keys of a press of rule `i` wait unless a delayed action has taken them along. -/
def Waiting (i : Nat) (s : State) (id : Nat) : Prop :=
  ∃ during, Since s.bare.journal id i during ∧ s.lazyKeys.Holds id (TakenAlong rules during)

variable (rules) in
/-- A press of rule `i` has ended, and its lazy keys were sent if a delayed action took them along. -/
structure Over (i : Nat) (s : State) (id : Nat) : Prop where
  numbered : id ≤ s.serial
  gone : id ∉ s.ids
  account : ∃ during, Between s.bare.journal id i during ∧ s.lazyKeys.Clear id (TakenAlong rules during)

variable (rules) in
/-- The lazy keys of every press of rule `i` that was tapped or can still be tapped. A number that was not given out
yet has none. -/
structure Lazily (i : Nat) (s : State) : Prop where
  fresh : ∀ id, s.serial < id → s.lazyKeys.Clear id False
  alone : ∀ p ∈ s.presses, p.rule = some i → p.isAlone = true → Waiting rules i s p.id
  tapped : ∀ id, .emitted id i .tap ∈ s.bare.journal → Over rules i s id

section
variable {i id : Nat} {s t : State} {more : List Incident}

theorem Waiting.extend (h : Waiting rules i s id) (journal : t.bare.journal = s.bare.journal ++ more)
    (holds : ∀ sent, s.lazyKeys.Holds id sent → t.lazyKeys.Holds id (sent ∨ TakenAlong rules more)) :
    Waiting rules i t id := by
  obtain ⟨during, since, hh⟩ := h
  refine ⟨during ++ more, ?_, ?_⟩
  · rw [journal]
    exact since.append more
  · rw [takenAlong_append]
    exact holds _ hh

theorem Over.extend (h : Over rules i s id) (journal : t.bare.journal = s.bare.journal ++ more)
    (serial : s.serial ≤ t.serial) (presses : ∀ p ∈ t.presses, p.id ∈ s.ids ∨ s.serial < p.id)
    (clear : ∀ sent, s.lazyKeys.Clear id sent → t.lazyKeys.Clear id sent) : Over rules i t id where
  numbered := Nat.le_trans h.numbered serial
  gone hm := by
    obtain ⟨p, hp, rfl⟩ := List.mem_map.1 hm
    rcases presses p hp with hp | hp
    · exact h.gone hp
    · have := h.numbered
      omega
  account := by
    obtain ⟨during, between, hc⟩ := h.account
    rw [journal]
    exact ⟨during, between.append more, clear _ hc⟩

theorem Lazily.extend (h : Lazily rules i s) (ho : Orderly rules s) (more : List Incident)
    (journal : t.bare.journal = s.bare.journal ++ more) (serial : s.serial ≤ t.serial)
    (presses : ∀ q ∈ t.presses, ∃ p ∈ s.presses, q.From p)
    (clear : ∀ id, id ∉ s.ids → ∀ sent, s.lazyKeys.Clear id sent → t.lazyKeys.Clear id sent)
    (holds : ∀ q ∈ t.presses, q.rule = some i → q.isAlone = true → ∀ sent, s.lazyKeys.Holds q.id sent →
      t.lazyKeys.Holds q.id (sent ∨ TakenAlong rules more))
    (taps : ∀ id, .emitted id i .tap ∈ more → Over rules i t id) : Lazily rules i t where
  fresh id hid := by
    refine clear id (fun hm => ?_) _ (h.fresh id (Nat.lt_of_le_of_lt serial hid))
    obtain ⟨p, hp, rfl⟩ := List.mem_map.1 hm
    have := ho.press_le p hp
    omega
  alone q hq hr ha := by
    obtain ⟨p, hp, hf⟩ := presses q hq
    have hw := h.alone p hp (hf.rule_eq ▸ hr) (hf.alone ha)
    rw [← hf.id_eq] at hw
    exact hw.extend journal (holds q hq hr ha)
  tapped id hid := by
    rw [journal] at hid
    rcases List.mem_append.1 hid with hid | hid
    · have hover := h.tapped id hid
      refine hover.extend journal serial (fun q hq => .inl ?_) (clear id hover.gone)
      obtain ⟨p, hp, hf⟩ := presses q hq
      rw [hf.id_eq]
      exact List.mem_map_of_mem hp
    · exact taps id hid

theorem Lazily.noteAll (h : Lazily rules i s) (ho : Orderly rules s) (more : List Incident)
    (plain : ∀ l ∈ more, l.isSending = false ∧ l.applies? = none ∧ ∀ press rule stage, l ≠ .emitted press rule stage) :
    Lazily rules i (s.noteAll more) := by
  have lazyKeys : (s.noteAll more).lazyKeys = s.lazyKeys := State.lazyKeys_noteAll (fun l hl => (plain l hl).2.1) s
  refine h.extend ho more ?_ (Nat.le_refl _) (fun q hq => ⟨q, hq, .refl q⟩) (fun _ _ _ hc => lazyKeys ▸ hc)
    (fun _ _ _ _ sent hh => ?_) (fun id hid => absurd rfl ((plain _ hid).2.2 _ _ _))
  · rw [State.bare_noteAll fun l hl => (plain l hl).1]
    rfl
  · have quiet : ¬TakenAlong rules more := not_takenAlong fun press rule hl => (plain _ hl).2.2 _ _ _ rfl
    rw [or_iff_left quiet, lazyKeys]
    exact hh

theorem Lazily.note (h : Lazily rules i s) (ho : Orderly rules s) {l : Incident} (hs : l.isSending = false)
    (ha : l.applies? = none) (he : ∀ press rule stage, l ≠ .emitted press rule stage) : Lazily rules i (s.note l) :=
  h.noteAll ho [l] fun c hc => by
    obtain rfl := List.mem_singleton.1 hc
    exact ⟨hs, ha, he⟩

theorem takenAlong_fired (d : Deadline) (p : Pending) :
    TakenAlong rules (fireLines d (.countdown p)) ↔ (eventsOf rules p.rule onInvoked).any takesAlong = true := by
  constructor
  · rintro ⟨press, rule, hl, takes⟩
    obtain hl | ⟨c, hc, hl | hl⟩ | ⟨c, j, hc, -, hl⟩ := fireLines_mem hl
    · cases hl
    · cases hl
    · cases hc
      cases hl
      exact takes
    · cases hc
  · intro takes
    exact ⟨p.press, p.rule, by simp [fireLines], takes⟩

theorem fireLines_tap (d : Deadline) (timer : Timer) (id : Nat) : .emitted id i .tap ∉ fireLines d timer := by
  intro hid
  obtain hl | ⟨p, -, hl | hl⟩ | ⟨p, j, -, -, hl⟩ := fireLines_mem hid <;> cases hl

theorem Lazily.fire (h : Lazily rules i s) (ho : Orderly rules s) (hu : Undisturbed i s) {d : Deadline} {timer : Timer}
    (first : earliest s.timers = some (d, timer)) : Lazily rules i (Engine.fire rules s d timer) := by
  have journal : (Engine.fire rules s d timer).bare.journal = s.bare.journal ++ fireLines d timer :=
    fire_journal rules s d timer
  have serial : s.serial ≤ (Engine.fire rules s d timer).serial := Nat.le_of_eq (fire_serial s d timer).symm
  obtain ⟨p, hp, runs, rfl⟩ | ⟨p, hp, runs, rfl⟩ := earliest_timers first
  · refine h.extend ho _ journal serial (fire_from s d _) (fun id _ sent hc => ?_) (fun q _ _ _ sent hh => ?_)
      (fun id hid => absurd hid (fireLines_tap d _ id))
    · rw [lazyKeys_fireCountdown]
      exact hc.deliverIf _
    · rw [lazyKeys_fireCountdown, takenAlong_fired]
      exact hh.deliverIf _
  · refine h.extend ho _ journal serial (fire_from s d _) (fun id hid sent hc => ?_) (fun q hq hr ha sent hh => ?_)
      (fun id hid => ?_)
    · refine hc.fireHold d ?_
      rintro rfl
      exact hid (List.mem_map_of_mem hp)
    · -- the press that is alone has no hold timer, and no other press has one
      obtain ⟨r, hrm, hf⟩ := fire_from s d _ q hq
      by_cases hid : p.id = r.id
      · obtain rfl := ho.press_unique hp hrm hid
        rw [(hu.short p hrm (hf.rule_eq ▸ hr)).2] at runs
        cases runs
      · rw [(hu.last r hrm (hf.alone ha) p hp hid).2] at runs
        cases runs
    · exact absurd hid (fireLines_tap d _ id)

/-! ## Presses that begin and end -/

variable (rules i) in
/-- Rule `i` is for a single key, has no hold, and arms lazy keys when a press begins. -/
structure HoldsLazily (m : Manipulator) : Prop where
  placed : rules[i]? = some m
  single : m.trigger.isTogether = false
  untimed : m.holdThreshold = none
  starts : startsLazily m

theorem dispatchLines_tap (keys : List Key) (rule : Option Nat) (instant : Nat) (s : State) (id : Nat) :
    .emitted id i .tap ∉ dispatchLines rules keys rule instant s := by
  intro hid
  rcases List.mem_cons.1 hid with hid | hid
  · cases hid
  rcases List.mem_append.1 hid with hid | hid
  · obtain ⟨d, -, hd | hd⟩ := endings_mem hid <;> cases hd
  · obtain ⟨j, hj⟩ := beginLines_mem rules hid
    cases hj

/-- What a press does when it begins is not done by a delayed action that is over. -/
theorem begun_takesNone (keys : List Key) (ps : List Pending) (id : Nat) :
    ¬TakenAlong rules (ps.map (ending keys) ++ [.emitted id i .press]) := by
  apply not_takenAlong
  intro press rule hl
  rcases List.mem_append.1 hl with hl | hl
  · obtain ⟨d, -, hd | hd⟩ := endings_mem hl <;> cases hd
  · cases List.mem_singleton.1 hl

theorem Lazily.dispatch (h : Lazily rules i s) {m : Manipulator} (hm : HoldsLazily rules i m)
    (keys : List Key) (rule : Option Nat) (instant : Nat) : Lazily rules i (dispatch rules keys rule instant s) := by
  have journal : (Engine.dispatch rules keys rule instant s).bare.journal =
      s.bare.journal ++ dispatchLines rules keys rule instant s := dispatch_journal rules keys rule instant s
  have serial : s.serial + 1 ≤ (Engine.dispatch rules keys rule instant s).serial :=
    dispatch_serial keys rule instant s
  refine ⟨fun id hid => ?_, fun q hq hr ha => ?_, fun id hid => ?_⟩
  · exact (h.fresh id (by omega)).dispatch (by omega) keys rule instant
  · obtain ⟨r, -, -, disturbed, -⟩ | ⟨hid, -, hrule⟩ := dispatch_from keys rule instant s q hq
    · rw [ha] at disturbed
      cases disturbed
    · obtain ⟨rfl, -⟩ := hrule i hr
      rw [hid]
      refine ⟨s.running.map (ending keys) ++ [.emitted (s.serial + 1) i .press], ?_, ?_⟩
      · rw [journal]
        refine ⟨s.bare.journal, keys, instant, s.flags, ?_⟩
        simp [dispatchLines, beginLines, hm.placed, Option.filter]
      · have quiet : ¬TakenAlong rules (s.running.map (ending keys) ++ [.emitted (s.serial + 1) i .press]) :=
          begun_takesNone keys s.running (s.serial + 1)
        rw [iff_false_intro quiet]
        exact (h.fresh (s.serial + 1) (Nat.lt_succ_self _)).begin keys hm.placed hm.starts instant
  · rw [journal] at hid
    rcases List.mem_append.1 hid with hid | hid
    · have hover := h.tapped id hid
      have := hover.numbered
      refine hover.extend journal (by omega) (fun q hq => ?_) fun sent hc => hc.dispatch (by omega) keys rule instant
      obtain ⟨r, hr, hf, -⟩ | ⟨hid, -⟩ := dispatch_from keys rule instant s q hq
      · rw [hf.id_eq]
        exact .inl (List.mem_map_of_mem hr)
      · exact .inr (by omega)
    · exact absurd hid (dispatchLines_tap keys rule instant s id)

theorem releaseLines_last {k : Key} {p : Press} (hk : s.holder? k = some p)
    (last : (p.held.filter (· != k)).isEmpty = true) (instant : Nat) :
    ∃ after, releaseLines rules k instant s = .released p.id :: after := by
  unfold releaseLines
  simp only [hk, last, if_true]
  exact ⟨_, rfl⟩

theorem release_gone {k : Key} {p : Press} (hk : s.holder? k = some p)
    (last : (p.held.filter (· != k)).isEmpty = true) (instant : Nat) :
    p.id ∉ (release rules k instant s).ids := by
  have gone : p.id ∉ (s.bare.drop p.id).ids := by
    intro hm
    obtain ⟨q, hq, hid⟩ := List.mem_map.1 hm
    exact bne_iff_ne.1 (List.mem_filter.1 hq).2 hid
  rw [← State.ids_bare, bare_release rules hk, if_pos last]
  obtain ⟨j, m, hr, hm⟩ | hr := rule_cases rules p.rule
  · obtain ⟨n, cs, -, he⟩ := settled_eq p j m instant ((s.bare.drop p.id).note (.released p.id))
    rw [bare_endPress_rule rules hr hm, he]
    exact gone
  · rw [bare_endPress_plain rules hr]
    exact gone

/-- A press of rule `i` has one key, so it is over when that key goes up. -/
theorem Undisturbed.last_key (h : Undisturbed i s) {k : Key} {p : Press} (hk : s.holder? k = some p)
    (hr : p.rule = some i) : (p.held.filter (· != k)).isEmpty = true := by
  obtain ⟨hp, hkm⟩ := holder_mem hk
  have one : p.held.length = 1 := by
    have := (h.short p hp hr).1
    have := List.length_pos_of_mem hkm
    omega
  obtain ⟨j, hj⟩ := List.length_eq_one_iff.1 one
  rw [hj] at hkm ⊢
  simp [List.mem_singleton.1 hkm]

theorem released_takesNone {k : Key} {instant : Nat} : ¬TakenAlong rules (releaseLines rules k instant s) := by
  apply not_takenAlong
  intro press rule hl
  obtain hl | ⟨p, -, hl | ⟨j, -, ⟨-, hl⟩ | hl⟩⟩ := releaseLines_mem rules hl <;> cases hl

theorem Lazily.release (h : Lazily rules i s) (ho : Orderly rules s) (hu : Undisturbed i s)
    (flags : ∀ n ∈ rules, ∀ e ∈ n.onRelease, ∃ flag value, e = .setFlag flag value) (k : Key) (instant : Nat) :
    Lazily rules i (release rules k instant s) := by
  have journal : (Engine.release rules k instant s).bare.journal =
      s.bare.journal ++ releaseLines rules k instant s := release_journal rules k instant s
  have serial : s.serial ≤ (Engine.release rules k instant s).serial := release_serial k instant s
  cases hk : s.holder? k with
  | none =>
    rw [release_none rules hk]
    exact h.note ho rfl rfl fun _ _ _ hl => by cases hl
  | some p =>
    have hp := (holder_mem hk).1
    refine h.extend ho _ journal serial (release_from ho k instant) (fun id hid sent hc => ?_)
      (fun q hq hr ha sent hh => ?_) (fun id hid => ?_)
    · rw [lazyKeys_release hk]
      exact (hc.drop p.id).deliverIf _
    · obtain ⟨r, hrm, hf⟩ := release_from ho k instant q hq
      have hrule : r.rule = some i := hf.rule_eq ▸ hr
      rw [or_iff_left released_takesNone]
      by_cases hid : p.id = r.id
      · obtain rfl := ho.press_unique hp hrm hid
        have gone : p.id ∉ (Engine.release rules k instant s).ids :=
          release_gone hk (hu.last_key hk hrule) instant
        rw [← hf.id_eq] at gone
        exact absurd (List.mem_map_of_mem hq) gone
      · rw [lazyKeys_release_disturbed hk (hu.last r hrm (hf.alone ha) p hp hid).1 flags]
        apply hh.dropOther
        rw [hf.id_eq]
        exact Ne.symm hid
    · obtain hl | ⟨c, ⟨hc, last⟩, hl | ⟨j, hr, ⟨ha, hl⟩ | hl⟩⟩ := releaseLines_mem rules hid
      · cases hl
      · cases hl
      · obtain rfl : p = c := Option.some.inj (hk.symm.trans hc)
        cases hl
        obtain ⟨during, since, hh⟩ := h.alone p hp hr ha
        obtain ⟨after, lines⟩ := releaseLines_last hk last instant
        refine ⟨Nat.le_trans (ho.press_le p hp) serial, release_gone hk last instant, during, ?_, ?_⟩
        · rw [journal, lines]
          exact since.released after
        · rw [lazyKeys_release hk]
          exact hh.drop.deliverIf _
      · cases hl

/-! ## At every moment -/

theorem Lazily.congr (h : Lazily rules i s) (presses : t.presses = s.presses) (serial : s.serial ≤ t.serial)
    (armed : t.armed = s.armed) (journal : t.journal = s.journal) : Lazily rules i t := by
  have lazyKeys : t.lazyKeys = s.lazyKeys := by
    unfold State.lazyKeys
    rw [armed, journal]
  have lines : t.bare.journal = s.bare.journal := by
    unfold State.bare
    rw [journal]
  refine ⟨fun id hid => ?_, fun p hp hr ha => ?_, fun id hid => ?_⟩
  · rw [lazyKeys]
    exact h.fresh id (by omega)
  · unfold Waiting
    rw [lazyKeys, lines]
    exact h.alone p (presses ▸ hp) hr ha
  · rw [lines] at hid
    obtain ⟨numbered, gone, account⟩ := h.tapped id hid
    refine ⟨Nat.le_trans numbered serial, ?_, ?_⟩
    · rw [State.ids, presses]
      exact gone
    · rw [lazyKeys, lines]
      exact account

theorem Lazily.move {x y : Session} (h : Lazily rules i x.state) (hx : Reachable rules x) {m : Manipulator}
    (hm : HoldsLazily rules i m) (step : Move rules x y) : Lazily rules i y.state := by
  have ho := hx.orderly
  cases step with
  | fire first => exact h.fire ho (hx.undisturbed hm.placed hm.single hm.untimed) first
  | dispatch simultaneous free oldest once alone => exact h.dispatch hm _ _ _
  | @holdBack k instant j free oldest found together =>
    have hn : Lazily rules i (x.state.note (.buffered k (openCandidates rules x.state k) x.state.flags)) :=
      h.note ho rfl rfl fun _ _ _ hl => by cases hl
    exact hn.congr rfl (Nat.le_succ _) rfl rfl
  | join held oldest narrowed some_left => exact h.congr rfl (Nat.le_refl _) rfl rfl
  | close held due => exact h.note ho rfl rfl fun _ _ _ hl => by cases hl
  | @finish b j held idle first ready =>
    obtain ⟨more, hs, hl⟩ := handOver_eq rules b j x.state
    have ht : Lazily rules i (handOver rules b j x.state) := by
      have hb : Lazily rules i { x.state with buffer := none } := h.congr rfl (Nat.le_refl _) rfl rfl
      rw [hs]
      refine hb.noteAll (ho.congr rfl rfl rfl) more fun l hm => ?_
      obtain ⟨t, rfl⟩ := hl l hm
      exact ⟨rfl, rfl, fun _ _ _ hl => by cases hl⟩
    simp only [finish_eq]
    exact ht.dispatch hm _ _ _
  | @flush b held =>
    have hn : Lazily rules i (x.state.note (.flushed b.keys.length)) :=
      h.note ho rfl rfl fun _ _ _ hl => by cases hl
    exact hn.congr rfl (Nat.le_refl _) rfl rfl

/-- At every moment the lazy keys of a press that is alone wait, unless a delayed action took them along, and a press
that was tapped has kept what became of them. -/
theorem Reachable.lazily {x : Session} (hx : Reachable rules x) {m : Manipulator} (hm : HoldsLazily rules i m)
    (flags : ∀ n ∈ rules, ∀ e ∈ n.onRelease, ∃ flag value, e = .setFlag flag value) : Lazily rules i x.state := by
  induction hx with
  | start =>
    exact ⟨fun id _ => ⟨fun _ ha => (List.not_mem_nil ha).elim, by simp [State.lazyKeys, appliedTo]⟩,
      fun _ hp => (List.not_mem_nil hp).elim, fun _ hl => (List.not_mem_nil hl).elim⟩
  | move hx step ih => exact ih.move hx hm step
  | @tick x hx _ instant ih =>
    obtain ⟨more, ht, hl⟩ := x.state.tick_eq instant
    have hn : Lazily rules i { x.state with now := max x.state.now instant } :=
      ih.congr rfl (Nat.le_refl _) rfl rfl
    rw [ht]
    refine hn.noteAll (hx.orderly.congr rfl rfl rfl) more fun l hm => ?_
    obtain ⟨t, n, rfl⟩ := hl l hm
    exact ⟨rfl, rfl, fun _ _ _ hl => by cases hl⟩
  | accept hx _ _ ih => exact ih.note hx.orderly rfl rfl fun _ _ _ hl => by cases hl
  | refuse hx _ _ ih => exact ih.note hx.orderly rfl rfl fun _ _ _ hl => by cases hl
  | release hx _ _ ih =>
    exact ih.release hx.orderly (hx.undisturbed hm.placed hm.single hm.untimed) flags _ _
  | take _ _ ih => exact ih.congr rfl (Nat.le_refl _) rfl rfl

/-! ## Lines of a run -/

theorem takenAlong_bare {lines : List Incident} :
    TakenAlong rules (lines.filter fun l => !l.isSending) ↔ TakenAlong rules lines := by
  unfold TakenAlong
  simp only [List.mem_filter, Incident.isSending, Bool.not_false, and_true]

theorem Between.full {journal during : List Incident}
    (h : Between (journal.filter fun l => !l.isSending) id i during) :
    ∃ whole, Between journal id i whole ∧ (whole.filter fun l => !l.isSending) = during := by
  obtain ⟨earlier, keys, instant, flags, after, h⟩ := h
  obtain ⟨front, rest, rfl, -, hr⟩ := List.filter_eq_append_iff.1 h
  obtain ⟨asides, rest, rfl, -, -, hr⟩ := List.filter_eq_cons_iff.1 hr
  obtain ⟨whole, rest, rfl, hw, hr⟩ := List.filter_eq_append_iff.1 hr
  obtain ⟨sendings, after, rfl, sending, -, -⟩ := List.filter_eq_cons_iff.1 hr
  refine ⟨whole ++ sendings, ⟨front ++ asides, keys, instant, flags, after, by simp⟩, ?_⟩
  rw [List.filter_append, hw, List.filter_eq_nil_iff.2 sending, List.append_nil]

end

end

end KeyRules.Engine
