import KeyRules.Proofs.Engine.Flags
import KeyRules.Proofs.Engine.OwnKeys

/-!
# Flags that show a hold

A rule can own a flag that it sets when its hold begins, with the press or with the hold timer, and clears on release.
If no other rule writes the flag, it is set exactly while a press of the rule is in flight whose hold has begun
(`Reachable.shown`). A tap that halts skips the release, but then the hold has not begun.
-/

namespace KeyRules.Engine

/-- The flag shows the holds of rule `i`. They begin with the press or with the hold timer. -/
structure Indicates (rules : List Manipulator) (f : Flag) (i : Nat) (m : Manipulator) (atPress : Bool) : Prop where
  placed : rules[i]? = some m
  single : ∃ k anyModifiers, m.trigger = .single k anyModifiers
  press : lastWrite f m.onPress = if atPress then some true else none
  hold : lastWrite f m.onHold = if atPress then none else some true
  tap : lastWrite f m.onTap = none
  release : lastWrite f m.onRelease = some false
  invoked : lastWrite f (onInvoked m) = none
  canceled : lastWrite f (onCanceled m) = none
  /-- A tap that skips the release comes only where the press does not set the flag. -/
  released : atPress = true → halts m.onTap = false
  sole : ∀ j n, rules[j]? = some n → n.Writes f → j = i

/-- A press of the rule is in flight and its hold has begun. -/
def State.shows (s : State) (i : Nat) (atPress : Bool) : Prop :=
  ∃ p ∈ s.presses, p.rule = some i ∧ (atPress || p.holdFired) = true

section
variable {rules : List Manipulator} {f : Flag} {i : Nat} {m : Manipulator} {atPress : Bool}

theorem shows_bare {s : State} : s.bare.shows i atPress ↔ s.shows i atPress := by
  constructor
  · rintro ⟨p, hp, hr⟩
    obtain ⟨q, hq, rfl⟩ := List.mem_map.1 hp
    exact ⟨q, hq, hr⟩
  · rintro ⟨p, hp, hr⟩
    exact ⟨p.bare, List.mem_map_of_mem hp, hr⟩

theorem shows_congr {s t : State} (h : t.presses = s.presses) : t.shows i atPress ↔ s.shows i atPress := by
  unfold State.shows
  rw [h]

theorem Indicates.writes_other (h : Indicates rules f i m atPress) {j : Nat} (hj : j ≠ i) (press : Nat)
    (stage : Stage) : (Incident.emitted press j stage).writes? rules f = none :=
  writes_elsewhere (fun n hn hw => hj (h.sole j n hn hw)) press stage

theorem Indicates.writes_countdown (h : Indicates rules f i m atPress) (press j : Nat) {stage : Stage}
    (hs : stage = .invoked ∨ stage = .canceled) : (Incident.emitted press j stage).writes? rules f = none := by
  by_cases hj : j = i
  · subst hj
    rw [writes_emitted h.placed]
    rcases hs with rfl | rfl
    · exact h.invoked
    · exact h.canceled
  · exact h.writes_other hj press stage

variable (f i atPress) in
/-- The flag is set exactly while a hold shows. -/
def Shown (s : State) : Prop := s.flag f = true ↔ s.shows i atPress

theorem Shown.congr {s t : State} (h : Shown f i atPress s) (flags : t.flags = s.flags)
    (presses : t.presses = s.presses) : Shown f i atPress t := by
  rw [Shown, State.flag_congr flags, shows_congr presses]
  exact h

/-- An operation that writes nothing to the flag and keeps what shows. -/
theorem Shown.keep {s t : State} (h : Shown f i atPress s) {lines : List Incident}
    (flag : t.flag f = (written rules f lines).getD (s.flag f)) (quiet : written rules f lines = none)
    (shows : t.shows i atPress ↔ s.shows i atPress) : Shown f i atPress t := by
  rw [Shown, flag, quiet, shows]
  exact h

/-! ## Timers -/

theorem shows_fired {s : State} (ho : Orderly rules s) {p : Press} (hp : p ∈ s.presses) :
    (s.updatePress p.id Press.fired).shows i atPress ↔ s.shows i atPress ∨ p.rule = some i := by
  constructor
  · rintro ⟨q, hq, hr, hs⟩
    obtain ⟨c, hc, rfl⟩ := List.mem_map.1 hq
    by_cases he : c.id = p.id
    · obtain rfl := ho.press_unique hc hp he
      rw [if_pos rfl] at hr
      exact .inr hr
    · rw [if_neg he] at hr hs
      exact .inl ⟨c, hc, hr, hs⟩
  · rintro (⟨c, hc, hr, hs⟩ | hr)
    · refine ⟨_, List.mem_map_of_mem hc, ?_⟩
      split
      · exact ⟨hr, Bool.or_true _⟩
      · exact ⟨hr, hs⟩
    · refine ⟨_, List.mem_map_of_mem hp, ?_⟩
      rw [if_pos rfl]
      exact ⟨hr, Bool.or_true _⟩

theorem shows_fire_hold {s : State} (ho : Orderly rules s) (d : Deadline) {p : Press} (hp : p ∈ s.presses) :
    (fire rules s d (.hold p)).shows i atPress ↔ s.shows i atPress ∨ p.rule = some i := by
  have hf : (s.bare.updatePress p.id Press.fired).shows i atPress ↔ s.bare.shows i atPress ∨ p.bare.rule = some i :=
    shows_fired (orderly_bare.2 ho) (p := p.bare) (List.mem_map_of_mem hp)
  rw [shows_bare] at hf
  rw [← shows_bare, ← Press.bare_rule, ← hf, fire]
  refine shows_congr ?_
  cases hr : p.rule with
  | none =>
    rw [bare_fireHold_plain rules _ hr, State.bare_note rfl]
    rfl
  | some j =>
    rw [bare_fireHold rules _ hr, State.bare_note rfl]
    split <;> rfl

theorem Shown.fire {s : State} (hs : Shown f i atPress s) (h : Indicates rules f i m atPress) (ho : Orderly rules s)
    {d : Deadline} {timer : Timer} (first : earliest s.timers = some (d, timer)) :
    Shown f i atPress (fire rules s d timer) := by
  obtain ⟨p, hp, runs, rfl⟩ | ⟨p, hp, timer, rfl⟩ := earliest_timers first
  · refine hs.keep (fire_flag s d (.countdown p)) ?_ ?_
    · rw [fireLines, written_cons_quiet rfl, written_cons_quiet rfl, written_cons_quiet]
      · rfl
      · exact h.writes_countdown p.press p.rule (.inl rfl)
    · rw [← shows_bare, Engine.fire, bare_fireCountdown, ← shows_bare (s := s)]
      exact shows_congr rfl
  · have hw : (Engine.fire rules s d (.hold p)).flag f = _ := fire_flag s d (.hold p)
    have hk : (Engine.fire rules s d (.hold p)).shows i atPress ↔ _ := shows_fire_hold ho d hp
    by_cases hr : p.rule = some i
    · have hl : written rules f (fireLines d (.hold p)) = if atPress then none else some true := by
        rw [fireLines, written_cons_quiet rfl, hr, Option.map_some, Option.toList_some, written_cons,
          writes_emitted h.placed]
        exact h.hold
      rw [Shown, hw, hl, hk]
      cases atPress with
      | true => exact hs.trans ⟨.inl, fun _ => ⟨p, hp, hr, rfl⟩⟩
      | false => simp [hr]
    · refine hs.keep hw ?_ (hk.trans (or_iff_left hr))
      refine written_eq_none fun l hl => ?_
      obtain rfl | ⟨q, hq, -⟩ | ⟨q, j, hq, hj, rfl⟩ := fireLines_mem hl
      · rfl
      · cases hq
      · obtain rfl := Timer.hold.inj hq
        exact h.writes_other (fun he => hr (he ▸ hj)) _ _

/-! ## Presses that begin -/

theorem shows_dispatch (hm : rules[i]? = some m) (keys : List Key) (rule : Option Nat) (instant : Nat) (s : State) :
    (dispatch rules keys rule instant s).shows i atPress ↔ s.shows i atPress ∨ rule = some i ∧ atPress = true := by
  have added : ∀ {t : State} (p : Press), t.presses = s.bare.presses.map Press.disturb ++ [p] → p.holdFired = false →
      (t.shows i atPress ↔ s.bare.shows i atPress ∨ p.rule = some i ∧ atPress = true) := by
    intro t p presses fresh
    unfold State.shows
    rw [presses]
    constructor
    · rintro ⟨q, hq, hr, hs⟩
      rcases List.mem_append.1 hq with hq | hq
      · obtain ⟨c, hc, rfl⟩ := List.mem_map.1 hq
        exact .inl ⟨c, hc, hr, hs⟩
      · obtain rfl := List.mem_singleton.1 hq
        rw [fresh, Bool.or_false] at hs
        exact .inr ⟨hr, hs⟩
    · rintro (⟨c, hc, hr, hs⟩ | ⟨hr, hs⟩)
      · exact ⟨c.disturb, List.mem_append_left _ (List.mem_map_of_mem hc), hr, hs⟩
      · exact ⟨p, List.mem_append_right _ (List.mem_singleton.2 rfl), hr, by rw [hs]; rfl⟩
  rw [← shows_bare, ← shows_bare (s := s)]
  obtain ⟨j, n, rfl, hn⟩ | hr := rule_cases rules rule
  · rw [bare_dispatch_rule rules keys hn]
    exact added (begun (s.serial + 1) keys j instant n) rfl rfl
  · have hne : rule ≠ some i := fun he => by
      rw [hr i he] at hm
      cases hm
    rw [bare_dispatch_plain rules keys hr, added _ rfl rfl]
    simp [hne]

theorem Shown.dispatch {s : State} (hs : Shown f i atPress s) (h : Indicates rules f i m atPress) (keys : List Key)
    (rule : Option Nat) (instant : Nat) : Shown f i atPress (dispatch rules keys rule instant s) := by
  have hw : (Engine.dispatch rules keys rule instant s).flag f = _ := dispatch_flag keys rule instant s
  have hk : (Engine.dispatch rules keys rule instant s).shows i atPress ↔ _ :=
    shows_dispatch h.placed keys rule instant s
  have endings : written rules f (s.running.map (ending keys)) = none := written_eq_none fun l hl => by
    obtain ⟨d, -, rfl | rfl⟩ := endings_mem hl
    · rfl
    · exact h.writes_countdown _ _ (.inr rfl)
  have lines : written rules f (dispatchLines rules keys rule instant s) =
      written rules f (beginLines rules (s.serial + 1) rule) := by
    rw [dispatchLines, written_cons_quiet rfl, written_append, endings, Option.or_none]
  by_cases hr : rule = some i
  · subst hr
    have hb : beginLines rules (s.serial + 1) (some i) = [.emitted (s.serial + 1) i .press] := by
      simp [beginLines, Option.filter, h.placed]
    have hp : written rules f (beginLines rules (s.serial + 1) (some i)) = if atPress then some true else none := by
      rw [hb, written_cons, writes_emitted h.placed]
      exact h.press
    rw [Shown, hw, hk, lines, hp]
    cases atPress with
    | true => simp
    | false => exact hs.trans (or_iff_left fun he => Bool.false_ne_true he.2).symm
  · refine hs.keep hw ?_ (hk.trans (or_iff_left fun he => hr he.1))
    rw [lines]
    refine written_eq_none fun l hl => ?_
    obtain ⟨j, hj, rfl⟩ := Option.map_eq_some_iff.1 (Option.mem_toList.1 hl)
    exact h.writes_other (fun he => hr (he ▸ (Option.filter_eq_some_iff.1 hj).1)) _ _

/-! ## Keys that go up -/

theorem Indicates.endLines_other (h : Indicates rules f i m atPress) {p : Press} {j : Nat} (hj : j ≠ i)
    (n : Manipulator) (instant : Nat) : written rules f (endLines p j n instant) = none := by
  refine written_eq_none fun l hl => ?_
  rcases endLines_mem hl with ⟨-, rfl⟩ | rfl
  · exact h.writes_other hj _ _
  · exact h.writes_other hj _ _

/-- A press of the rule clears the flag at its end, unless its tap halts. -/
theorem Indicates.endLines_own (h : Indicates rules f i m atPress) (p : Press) (instant : Nat) :
    written rules f (endLines p i m instant) = some false ∨
      written rules f (endLines p i m instant) = none ∧ (atPress || p.holdFired) = false := by
  have tap : (Incident.emitted p.id i .tap).writes? rules f = none := (writes_emitted h.placed _).trans h.tap
  have release : written rules f [.emitted p.id i .release] = some false := by
    rw [written_cons, writes_emitted h.placed]
    exact h.release
  unfold endLines
  cases ht : isTap m p instant with
  | false => exact .inl release
  | true =>
    cases hh : halts m.onTap with
    | false =>
      refine .inl ?_
      simp only [if_true, Bool.and_false, Bool.false_eq_true, if_false, List.cons_append, List.nil_append]
      rw [written_cons_quiet tap, release]
    | true =>
      refine .inr ⟨written_cons_quiet tap _, ?_⟩
      have early : atPress = false := Bool.eq_false_iff.2 fun ha => by
        rw [h.released ha] at hh
        cases hh
      simp only [isTap, Bool.and_eq_true, Bool.not_eq_true'] at ht
      rw [early, ht.1.2]
      rfl

theorem shows_keep (s : State) (id : Nat) (ks : List Key) :
    (s.updatePress id (Press.keep ks)).shows i atPress ↔ s.shows i atPress := by
  constructor
  · rintro ⟨q, hq, hr, hs⟩
    obtain ⟨c, hc, rfl⟩ := List.mem_map.1 hq
    refine ⟨c, hc, ?_⟩
    split at hr
    · rename_i he
      rw [if_pos he] at hs
      exact ⟨hr, hs⟩
    · rename_i he
      rw [if_neg he] at hs
      exact ⟨hr, hs⟩
  · rintro ⟨c, hc, hr, hs⟩
    refine ⟨_, List.mem_map_of_mem hc, ?_⟩
    split <;> exact ⟨hr, hs⟩

theorem shows_drop_other {s : State} (ho : Orderly rules s) {p : Press} (hp : p ∈ s.presses) (hr : p.rule ≠ some i) :
    (s.drop p.id).shows i atPress ↔ s.shows i atPress := by
  constructor
  · rintro ⟨q, hq, shown⟩
    exact ⟨q, (List.mem_filter.1 hq).1, shown⟩
  · rintro ⟨q, hq, hqr, shown⟩
    refine ⟨q, List.mem_filter.2 ⟨hq, bne_iff_ne.2 fun he => hr ?_⟩, hqr, shown⟩
    rw [← ho.press_unique hq hp he]
    exact hqr

/-- After the end of the one press of the rule nothing shows. -/
theorem Indicates.shows_drop_own (h : Indicates rules f i m atPress) {x : Session} (hx : Reachable rules x)
    {p : Press} (hp : p ∈ x.state.presses) (hr : p.rule = some i) : ¬(x.state.drop p.id).shows i atPress := by
  obtain ⟨key, anyModifiers, trigger⟩ := h.single
  rintro ⟨q, hq, hqr, -⟩
  obtain ⟨hq, hne⟩ := List.mem_filter.1 hq
  rw [hx.only_press h.placed trigger hq hp hqr hr] at hne
  exact bne_iff_ne.1 hne rfl

theorem Shown.endsOwn {x : Session} (hs : Shown f i atPress x.state) (h : Indicates rules f i m atPress)
    (hx : Reachable rules x) {p : Press} (hp : p ∈ x.state.presses) (hr : p.rule = some i) {t : State}
    {instant : Nat} (flag : t.flag f = (written rules f (endLines p i m instant)).getD (x.state.flag f))
    (shows : t.shows i atPress ↔ (x.state.drop p.id).shows i atPress) : Shown f i atPress t := by
  have gone := h.shows_drop_own hx hp hr
  rw [Shown, flag, shows]
  obtain hc | ⟨hn, quiet⟩ := h.endLines_own p instant
  · simp [hc, gone]
  · -- its hold has not begun, so the flag was clear
    obtain ⟨key, anyModifiers, trigger⟩ := h.single
    have unset : ¬x.state.flag f = true := fun hf => by
      obtain ⟨q, hq, hqr, shown⟩ := hs.1 hf
      rw [hx.only_press h.placed trigger hq hp hqr hr, quiet] at shown
      cases shown
    simp [hn, unset, gone]

theorem Shown.release {x : Session} (hs : Shown f i atPress x.state) (h : Indicates rules f i m atPress)
    (hx : Reachable rules x) (k : Key) (instant : Nat) :
    Shown f i atPress (release rules k instant x.state) := by
  have hw : (Engine.release rules k instant x.state).flag f = _ := release_flag k instant x.state
  cases hk : x.state.holder? k with
  | none =>
    rw [release_none rules hk]
    exact hs.congr rfl rfl
  | some p =>
    have hp := (holder_mem hk).1
    have hb : (Engine.release rules k instant x.state).bare.presses = _ := release_presses rules hk instant
    by_cases hl : (p.held.filter (· != k)).isEmpty = true
    · rw [if_pos hl] at hb
      have dropped : (Engine.release rules k instant x.state).shows i atPress ↔
          (x.state.drop p.id).shows i atPress := by
        rw [← shows_bare, ← shows_bare (s := x.state.drop p.id), State.bare_drop]
        exact shows_congr hb
      simp only [releaseLines, hk, if_pos hl] at hw
      rw [written_cons_quiet rfl] at hw
      by_cases hr : p.rule = some i
      · rw [hr, Option.bind_some, h.placed, Option.map_some, Option.getD_some] at hw
        exact hs.endsOwn h hx hp hr hw dropped
      · refine hs.keep hw ?_ (dropped.trans (shows_drop_other hx.orderly hp hr))
        obtain ⟨j, n, hj, hn⟩ | hn := rule_cases rules p.rule
        · simp only [hj, hn, Option.bind_some, Option.map_some, Option.getD_some]
          exact h.endLines_other (fun he => hr (hj.trans (congrArg some he))) n instant
        · rw [bind_unmatched rules hn]
          rfl
    · rw [if_neg hl] at hb
      refine hs.keep hw ?_ ?_
      · simp only [releaseLines, hk, if_neg hl]
        rfl
      · rw [← shows_bare, ← shows_bare (s := x.state), shows_congr hb]
        exact shows_keep _ _ _

/-! ## Every moment -/

theorem Shown.move {x y : Session} (hs : Shown f i atPress x.state) (h : Indicates rules f i m atPress)
    (hx : Reachable rules x) (step : Move rules x y) : Shown f i atPress y.state := by
  cases step with
  | fire first => exact hs.fire h hx.orderly first
  | dispatch simultaneous free oldest once single => exact hs.dispatch h _ _ _
  | holdBack free oldest found together => exact hs.congr rfl rfl
  | join held oldest narrowed some_left => exact hs.congr rfl rfl
  | close held due => exact hs.congr rfl rfl
  | @finish b j held idle first ready =>
    obtain ⟨more, ht, -⟩ := handOver_eq rules b j x.state
    have hh : Shown f i atPress (handOver rules b j x.state) := by
      rw [ht]
      exact hs.congr rfl rfl
    simp only [finish_eq]
    exact hh.dispatch h _ _ _
  | flush held => exact hs.congr rfl rfl

/-- At every moment the flag shows whether a press of the rule is in flight whose hold has begun. -/
theorem Reachable.shown {x : Session} (hx : Reachable rules x) (h : Indicates rules f i m atPress) :
    Shown f i atPress x.state := by
  induction hx with
  | start => exact ⟨fun hf => absurd hf (by simp [State.flag]), fun ⟨p, hp, _⟩ => (List.not_mem_nil hp).elim⟩
  | move hx step ih => exact ih.move h hx step
  | @tick x _ _ instant ih =>
    obtain ⟨more, ht, -⟩ := x.state.tick_eq instant
    rw [ht]
    exact ih.congr rfl rfl
  | accept _ _ _ ih => exact ih.congr rfl rfl
  | refuse _ _ _ ih => exact ih.congr rfl rfl
  | release hx _ _ ih => exact ih.release h hx _ _
  | take _ _ ih => exact ih.congr rfl rfl

end

end KeyRules.Engine
