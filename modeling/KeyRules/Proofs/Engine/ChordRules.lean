import KeyRules.Proofs.Engine.Calm

/-!
# Rules for chords only

Where every rule is an ungated chord, no timer runs but the window of a buffer. A key of some chord is held back for
the window of the first chord that has it (`ChordsOnly.accept_opens`). If the window closes on this key alone, it goes
down on its own (`ChordsOnly.lapse`). A second key in time leaves the chords of both (`ChordsOnly.accept_joins`).
-/

namespace KeyRules.Engine

def dispatches (journal : List Incident) : List (List Key × Option Nat) :=
  (beginnings journal).map fun b => (b.keys, b.rule)

/-- Every rule is a chord of at least two keys, without gates and timers. -/
structure ChordsOnly (rules : List Manipulator) : Prop where
  chord : ∀ m ∈ rules, ∃ ks window, m.trigger = .together ks .anyOrder window
  size : ∀ m ∈ rules, 2 ≤ m.trigger.keys.length
  ungated : ∀ m ∈ rules, m.gates = []
  undelayed : ∀ m ∈ rules, m.delayed = none
  untimed : ∀ m ∈ rules, m.holdThreshold = none

section
variable {rules : List Manipulator}

theorem dispatch_dispatches (keys : List Key) (rule : Option Nat) (instant : Nat) (s : State) :
    dispatches (dispatch rules keys rule instant s).journal = dispatches s.journal ++ [(keys, rule)] := by
  simp [dispatches, dispatch_beginnings]

theorem finish_dispatches (b : Buffer) (i : Nat) (s : State) :
    dispatches (finish rules b i s).journal = dispatches s.journal ++ [(b.keys.map (·.1), some i)] := by
  rw [finish_eq, dispatch_dispatches, dispatches, (handOver_frame rules b i s).2.2]
  rfl

theorem dispatches_note {i : Incident} (hi : i.begins? = none) (s : State) :
    dispatches (s.note i).journal = dispatches s.journal := by
  simp only [dispatches, beginnings_note hi]

theorem State.timers_of_ticking {s : State} (h : s.ticking = 0) : s.timers = [] :=
  List.length_eq_zero_iff.1 (s.timers_length.trans h)

/-! ## Which chord a key belongs to -/

theorem ChordsOnly.opensWith (h : ChordsOnly rules) {m : Manipulator} (hm : m ∈ rules) (k : Key) :
    m.trigger.opensWith k = m.trigger.keys.contains k := by
  obtain ⟨ks, window, ht⟩ := h.chord m hm
  rw [ht]
  rfl

theorem ChordsOnly.gatesOpen (h : ChordsOnly rules) {m : Manipulator} (hm : m ∈ rules) (s : State) :
    s.gatesOpen m.gates = true := by
  rw [h.ungated m hm]
  rfl

theorem ChordsOnly.reactsTo (h : ChordsOnly rules) {m : Manipulator} (hm : m ∈ rules) (s : State) (k : Key)
    (simultaneous : Bool) : reactsTo s k simultaneous m = (simultaneous && m.trigger.keys.contains k) := by
  unfold Engine.reactsTo
  rw [h.gatesOpen hm, Bool.true_and, ← h.opensWith hm]
  obtain ⟨ks, window, ht⟩ := h.chord m hm
  rw [ht]

theorem ChordsOnly.findRule_false (h : ChordsOnly rules) (s : State) (k : Key) :
    findRule rules s k false = none := by
  refine List.findIdx?_eq_none_iff.2 fun m hm => ?_
  rw [h.reactsTo hm]
  rfl

def having (rules : List Manipulator) (k : Key) : List Nat :=
  (List.range rules.length).filter fun i => (triggerKeys rules i).contains k

theorem mem_having {k : Key} {i : Nat} :
    i ∈ having rules k ↔ ∃ m, rules[i]? = some m ∧ k ∈ m.trigger.keys := by
  unfold having
  rw [List.mem_filter, List.mem_range, List.contains_iff_mem]
  constructor
  · rintro ⟨hi, hk⟩
    rw [triggerKeys_eq (List.getElem?_eq_getElem hi)] at hk
    exact ⟨_, List.getElem?_eq_getElem hi, hk⟩
  · rintro ⟨m, hm, hk⟩
    refine ⟨(List.getElem?_eq_some_iff.1 hm).1, ?_⟩
    rw [triggerKeys_eq hm]
    exact hk

theorem ChordsOnly.openCandidates (h : ChordsOnly rules) (s : State) (k : Key) :
    openCandidates rules s k = having rules k := by
  refine List.filter_congr fun i hi => ?_
  have hm := List.getElem?_eq_getElem (List.mem_range.1 hi)
  have hmem := List.getElem_mem (List.mem_range.1 hi)
  rw [triggerKeys_eq hm, hm, Option.any_some, h.gatesOpen hmem, h.opensWith hmem, Bool.true_and]

theorem having_head (rules : List Manipulator) (k : Key) :
    ((having rules k).head?.bind fun i => rules[i]?) = rules.find? fun m => m.trigger.keys.contains k := by
  induction rules with
  | nil => rfl
  | cons m rules ih =>
    have hr : having (m :: rules) k =
        if m.trigger.keys.contains k then 0 :: (having rules k).map (· + 1) else (having rules k).map (· + 1) := by
      unfold having
      rw [List.length_cons, List.range_succ_eq_map, List.filter_cons, List.filter_map]
      rfl
    rw [hr, List.find?_cons]
    cases hk : m.trigger.keys.contains k with
    | true => rfl
    | false =>
      rw [← ih]
      cases having rules k <;> rfl

/-! ## Timers -/

theorem ChordsOnly.dispatch_timers (h : ChordsOnly rules) (keys : List Key) (rule : Option Nat) (instant : Nat)
    (s : State) : (dispatch rules keys rule instant s).timers = [] := by
  have rests : (s.resting.countP fun d => d.deadline.isSome) = 0 := by
    refine List.countP_eq_zero.2 fun d hd => ?_
    rw [resting_rests hd]
    exact Bool.false_ne_true
  have calm : ((s.bare.presses.map Press.disturb).countP fun p => p.holdTimer.isSome) = 0 := by
    refine List.countP_eq_zero.2 fun p hp => ?_
    obtain ⟨q, -, rfl⟩ := List.mem_map.1 hp
    exact Bool.false_ne_true
  apply State.timers_of_ticking
  rw [← ticking_bare]
  obtain ⟨i, m, rfl, hm⟩ | hr := rule_cases rules rule
  · have hmem := List.mem_of_getElem? hm
    rw [bare_dispatch_rule rules keys hm]
    simp only [State.ticking, List.countP_append, rests, calm, awaited, begun, h.undelayed m hmem, h.untimed m hmem]
    rfl
  · rw [bare_dispatch_plain rules keys hr]
    simp only [State.ticking, List.countP_append, rests, calm]
    rfl

theorem ChordsOnly.finish_timers (h : ChordsOnly rules) (b : Buffer) (i : Nat) (s : State) :
    (finish rules b i s).timers = [] := by
  rw [finish_eq]
  exact h.dispatch_timers _ _ _ _

theorem tick_dispatches (s : State) (instant : Nat) :
    dispatches (s.tick instant).journal = dispatches s.journal := by
  rw [dispatches, tick_beginnings, dispatches]

/-! ## Chords that begin -/

/-- The first chord that has a key sets the window of a buffer. -/
theorem having_window {k : Key} {m : Manipulator}
    (first : (rules.find? fun m => m.trigger.keys.contains k) = some m) :
    (do (← rules[← (having rules k).head?]?).trigger.window? : Option Millis) = m.trigger.window? := by
  have hh := having_head rules k
  rw [first] at hh
  cases hc : (having rules k).head? with
  | none =>
    rw [hc] at hh
    cases hh
  | some i =>
    rw [hc] at hh
    show (rules[i]?.bind fun m => m.trigger.window?) = m.trigger.window?
    have hi : rules[i]? = some m := hh
    rw [hi]
    rfl

/-- A key of some chord is held back when it goes down on its own. -/
theorem ChordsOnly.press_holdsBack (h : ChordsOnly rules) {k : Key} {m : Manipulator} (hm : m ∈ rules)
    (hk : k ∈ m.trigger.keys) (instant : Nat) (s : State) :
    press rules k instant true s = startBuffer rules k instant s := by
  unfold press
  cases hf : findRule rules s k true with
  | none =>
    have hr := List.findIdx?_eq_none_iff.1 hf m hm
    rw [h.reactsTo hm, List.contains_iff_mem.2 hk] at hr
    cases hr
  | some i =>
    obtain ⟨hi, -, -⟩ := List.findIdx?_eq_some_iff_getElem.1 hf
    obtain ⟨ks, window, ht⟩ := h.chord _ (List.getElem_mem hi)
    simp [List.getElem?_eq_getElem hi, ht, Trigger.isTogether]

/-- A key of some chord is held back for the window of the first chord that has it. -/
theorem ChordsOnly.accept_opens (h : ChordsOnly rules) {s : State} (free : s.buffer = none) (calm : s.timers = [])
    {k : Key} {m : Manipulator} (first : (rules.find? fun m => m.trigger.keys.contains k) = some m) {window : Millis}
    (width : m.trigger.window? = some window) :
    ∃ n, (accept rules k s).buffer = some ⟨[(k, s.now)], having rules k, ⟨after s.now window.toNat, n⟩⟩ ∧
      (accept rules k s).timers = [] ∧ (accept rules k s).now = s.now ∧
      (accept rules k s).heldLists = s.heldLists ∧
      dispatches (accept rules k s).journal = dispatches s.journal := by
  have hk : k ∈ m.trigger.keys := List.contains_iff_mem.1 (List.find?_some first :)
  have hm : m ∈ rules := List.mem_of_find?_eq_some first
  rw [accept_free free, h.press_holdsBack hm hk]
  refine ⟨s.serial + 1, ?_, calm, rfl, rfl, ?_⟩
  · simp only [startBuffer, h.openCandidates, having_window first, width]
    rfl
  · rw [startBuffer, dispatches_note rfl]
    exact dispatches_note rfl s

theorem ChordsOnly.closeWindow_one (h : ChordsOnly rules) {s : State} (calm : s.timers = []) {b : Buffer} {k : Key}
    {since : Nat} (one : b.keys = [(k, since)]) (candidates : ∀ i ∈ b.candidates, i < rules.length) :
    closeWindow rules b s = dispatch rules [k] none since
      ({ s.note (.windowClosed b.deadline) with buffer := none }.note (.flushed 1)) := by
  have two : ∀ i ∈ b.candidates, 2 ≤ (triggerKeys rules i).length := by
    intro i hi
    have hm := List.getElem?_eq_getElem (candidates i hi)
    rw [triggerKeys_eq hm]
    exact h.size _ (List.mem_of_getElem? hm)
  have ht : (s.note (.windowClosed b.deadline)).timers = [] := calm
  unfold closeWindow
  simp only
  rw [complete_one one two]
  simp only
  rw [flush_one ht one]
  unfold press
  rw [h.findRule_false]

theorem ChordsOnly.lapse (h : ChordsOnly rules) {s : State} {k : Key} {since : Nat} {b : Buffer}
    (held : s.buffer = some b) (one : b.keys = [(k, since)]) (calm : s.timers = [])
    (candidates : ∀ i ∈ b.candidates, i < rules.length) (instant : Nat) (due : b.deadline.instant ≤ instant)
    (later : s.now ≤ instant) :
    (advanceTo rules instant s).buffer = none ∧ (advanceTo rules instant s).timers = [] ∧
      (advanceTo rules instant s).now = instant ∧
      (advanceTo rules instant s).heldLists = s.heldLists ++ [[k]] ∧
      dispatches (advanceTo rules instant s).journal = dispatches s.journal ++ [([k], none)] := by
  have ht : (s.tick instant).timers = [] := s.tick_timers instant ▸ calm
  have hn : (s.tick instant).now = instant := State.tick_now later
  have ha : advanceTo rules instant s = dispatch rules [k] none since
      ({ (s.tick instant).note (.windowClosed b.deadline) with buffer := none }.note (.flushed 1)) := by
    simp only [advanceTo, fireDue, State.tick_buffer]
    rw [held]
    simp only [settleBy]
    rw [if_pos (by omega), settle_of_timers_nil ht, h.closeWindow_one ht one candidates]
    exact settle_of_timers_nil (h.dispatch_timers _ _ _ _) _
  rw [ha]
  refine ⟨(dispatch_frame rules _ _ _ _).1, h.dispatch_timers _ _ _ _, (dispatch_frame rules _ _ _ _).2.trans hn,
    ?_, ?_⟩
  · rw [dispatch_heldLists]
    exact congrArg (· ++ [[k]]) (s.tick_heldLists instant)
  · rw [dispatch_dispatches, dispatches_note rfl]
    exact congrArg (· ++ [([k], none)]) ((dispatches_note rfl _).trans (tick_dispatches s instant))

/-! ## Chords that complete -/

theorem ChordsOnly.accepts_iff (h : ChordsOnly rules) {m : Manipulator} (hm : m ∈ rules) (k j : Key) :
    m.trigger.accepts [k, j] = true ↔ k ∈ m.trigger.keys ∧ j ∈ m.trigger.keys := by
  have hs := h.size m hm
  obtain ⟨ks, window, ht⟩ := h.chord m hm
  rw [ht] at hs ⊢
  have hs : 2 ≤ ks.length := hs
  simp [Trigger.accepts, Trigger.keys, hs]

/-- The one chord of two keys is what they leave of the chords of the first. -/
theorem ChordsOnly.narrowed (h : ChordsOnly rules) {k j : Key} {i : Nat} {m : Manipulator}
    (placed : rules[i]? = some m) (both : k ∈ m.trigger.keys ∧ j ∈ m.trigger.keys)
    (only : ∀ l e, rules[l]? = some e → k ∈ e.trigger.keys → j ∈ e.trigger.keys → l = i) :
    (having rules k).filter (fun l => rules[l]?.any fun e => e.trigger.accepts [k, j]) = [i] := by
  have hone : ∀ l, l ∈ (having rules k).filter (fun l => rules[l]?.any fun e => e.trigger.accepts [k, j]) ↔
      l = i := by
    intro l
    rw [List.mem_filter, mem_having]
    constructor
    · rintro ⟨⟨e, he, hk⟩, hj⟩
      rw [he, Option.any_some, h.accepts_iff (List.mem_of_getElem? he)] at hj
      exact only l e he hk hj.2
    · rintro rfl
      refine ⟨⟨m, placed, both.1⟩, ?_⟩
      rw [placed, Option.any_some, h.accepts_iff (List.mem_of_getElem? placed)]
      exact both
  have hn : (having rules k).Nodup := List.nodup_range.filter _
  exact eq_singleton_of_nodup (hn.filter _) hone

/-- A second key in time leaves one chord of both, which fires if it has no third key. -/
theorem ChordsOnly.accept_joins (h : ChordsOnly rules) {s : State} {k j : Key} {since : Nat} {d : Deadline}
    (held : s.buffer = some ⟨[(k, since)], having rules k, d⟩)
    {i : Nat} {m : Manipulator} (placed : rules[i]? = some m) (pair : m.trigger.keys.length = 2)
    (both : k ∈ m.trigger.keys ∧ j ∈ m.trigger.keys)
    (only : ∀ l e, rules[l]? = some e → k ∈ e.trigger.keys → j ∈ e.trigger.keys → l = i) :
    (accept rules j s).buffer = none ∧ (accept rules j s).timers = [] ∧ (accept rules j s).now = s.now ∧
      dispatches (accept rules j s).journal = dispatches s.journal ++ [([k, j], some i)] := by
  have hc : complete? rules ⟨[(k, since), (j, s.now)], [i], d⟩ = some i := by
    simp [complete?, isComplete, triggerKeys_eq placed, pair]
  have hw : isWaiting rules ⟨[(k, since), (j, s.now)], [i], d⟩ i = false := by
    simp [isWaiting]
  have ha : accept rules j s = finish rules ⟨[(k, since), (j, s.now)], [i], d⟩ i
      { s.note (.accepted j s.now) with buffer := some ⟨[(k, since), (j, s.now)], [i], d⟩ } := by
    rw [accept_held held]
    simp only [extend, List.map_cons, List.map_nil, List.cons_append, List.nil_append,
      h.narrowed placed both only, List.isEmpty_cons, tryFinish, hc, hw, Bool.false_eq_true, if_false]
  rw [ha]
  refine ⟨(finish_frame rules _ _ _).1, h.finish_timers _ _ _, (finish_frame rules _ _ _).2, ?_⟩
  rw [finish_dispatches]
  exact congrArg (· ++ [([k, j], some i)]) (dispatches_note rfl s)

end

end KeyRules.Engine
