import KeyRules.Proofs.Engine.ChordRules
import KeyRules.Proofs.Engine.Growth
import KeyRules.Proofs.Engine.Undisturbed

/-!
# How a buffer of chords ends

A buffer over chords holds keys that differ, and its candidates are the chords of them all (`Gathering`). Three events
end it: its window closes, a further key goes down, or one of its keys goes up. The first two let the first chord of
just the keys at hand fire, if there is one (`Buffer.fires`); in all other cases each key goes down on its own
(`ChordsOnly.step_fate`). Inputs that begin no press leave the keys where they are (`ChordsOnly.run_quiet`).
-/

namespace KeyRules.Engine

def Buffer.names (b : Buffer) : List Key := b.keys.map (·.1)

def Input.clock (now : Nat) : Input → Nat
  | .down _ instant | .up _ instant | .advance instant => max now instant
  | .take => now

/-- The place of the first set of just these keys, in any order. -/
def firstOf (sets : List (List Key)) (ks : List Key) : Option Nat := sets.findIdx? fun set => set.isPerm ks

/-- What fires when an input ends a buffer over chords with these sets of keys: the keys that go down together and the
chord. A key that comes before the window closes counts; one that goes up in time leaves no chord. -/
def Buffer.fires (b : Buffer) (sets : List (List Key)) (now : Nat) (i : Input) : Option (List Key × Nat) :=
  if b.deadline.instant ≤ i.clock now then (firstOf sets b.names).map (b.names, ·)
  else
    match i with
    | .down k _ => (firstOf sets (b.names ++ [k])).map (b.names ++ [k], ·)
    | _ => none

/-- The presses that begin with the end of a buffer. Where nothing fires each key goes down on its own. -/
def Buffer.ending (b : Buffer) : Option (List Key × Nat) → List (List Key × Option Nat)
  | some (ks, i) => [(ks, some i)]
  | none => b.names.map fun k => ([k], none)

/-- What becomes of a buffer while the state goes from `s` to `t`: it waits, perhaps for one more key, or it ends. -/
inductive Buffer.Fate (b : Buffer) (fired : Option (List Key × Nat)) (s t : State) : Prop where
  | waits {c : Buffer} (held : t.buffer = some c) (kept : b.keys <+: c.keys)
      (quiet : dispatches t.journal = dispatches s.journal)
  | ends (later : List (List Key × Option Nat))
      (ended : dispatches t.journal = dispatches s.journal ++ b.ending fired ++ later)

def keySets (rules : List Manipulator) : List (List Key) := rules.map (·.trigger.keys)

section
variable {rules : List Manipulator}

/-! ## Presses only add to those before -/

theorem Grows.dispatches {s t : State} (h : Grows s t) :
    Engine.dispatches s.journal <+: Engine.dispatches t.journal := by
  rw [Engine.dispatches, Engine.dispatches, ← beginnings_bare s, ← beginnings_bare t]
  exact (h.filterMap _).map _

section
variable (rules)

theorem release_dispatches (k : Key) (instant : Nat) (s : State) :
    dispatches (release rules k instant s).journal = dispatches s.journal := by
  rw [dispatches, dispatches, release_beginnings]

theorem press_dispatches (k : Key) (instant : Nat) (simultaneous : Bool) (s : State) :
    dispatches s.journal <+: dispatches (press rules k instant simultaneous s).journal :=
  (press_grows rules k instant simultaneous s).dispatches

theorem flushHolding_dispatches (k : Key) (s : State) :
    dispatches s.journal <+: dispatches (flushHolding rules k s).journal :=
  (flushHolding_grows rules k s).dispatches

theorem keyDown_dispatches (k : Key) (instant : Nat) (s : State) :
    dispatches (advanceTo rules instant s).journal <+: dispatches (keyDown rules k instant s).journal :=
  (keyDown_grows rules k instant s).dispatches

theorem keyUp_dispatches (k : Key) (instant : Nat) (s : State) :
    dispatches (flushHolding rules k (advanceTo rules instant s)).journal =
      dispatches (keyUp rules k instant s).journal :=
  (release_dispatches rules k _ _).symm

theorem run_dispatches (inputs more : List Input) :
    dispatches (run rules inputs).journal <+: dispatches (run rules (inputs ++ more)).journal :=
  (run_grows rules inputs more).dispatches

end

/-! ## The candidates of a buffer -/

/-- The rules that have all of the keys, in order. -/
def covering (rules : List Manipulator) (ks : List Key) : List Nat :=
  (List.range rules.length).filter fun i => ks.all (triggerKeys rules i).contains

theorem covering_one (k : Key) : covering rules [k] = having rules k := by
  simp [covering, having]

/-- The keys of a buffer differ, and its candidates are the rules that have them all. -/
structure Gathering (rules : List Manipulator) (b : Buffer) : Prop where
  distinct : b.names.Nodup
  opened : b.names ≠ []
  candidates : b.candidates = covering rules b.names

/-- Different keys fit the chords that have them all. -/
theorem ChordsOnly.accepts (h : ChordsOnly rules) {m : Manipulator} (hm : m ∈ rules) {ks : List Key}
    (distinct : ks.Nodup) : m.trigger.accepts ks = ks.all m.trigger.keys.contains := by
  obtain ⟨set, window, ht⟩ := h.chord m hm
  rw [ht, Trigger.accepts, Trigger.keys]
  cases hs : ks.all set.contains with
  | false => rw [Bool.and_false]
  | true =>
    have hsub : ks ⊆ set := fun k hk => List.contains_iff_mem.1 (List.all_eq_true.1 hs k hk)
    rw [Bool.and_true, decide_eq_true (List.subperm_of_subset distinct hsub).length_le]

theorem ChordsOnly.covering_join (h : ChordsOnly rules) {ks : List Key} {k : Key} (distinct : (ks ++ [k]).Nodup) :
    (covering rules ks).filter (fun i => rules[i]?.any fun m => m.trigger.accepts (ks ++ [k])) =
      covering rules (ks ++ [k]) := by
  unfold covering
  rw [List.filter_filter]
  refine List.filter_congr fun i hi => ?_
  obtain ⟨m, hm⟩ : ∃ m, rules[i]? = some m := ⟨_, List.getElem?_eq_getElem (List.mem_range.1 hi)⟩
  rw [hm, Option.any_some, h.accepts (List.mem_of_getElem? hm) distinct, triggerKeys_eq hm, List.all_append]
  cases ks.all m.trigger.keys.contains <;> simp

theorem find_range {α : Type} (l : List α) (p : α → Bool) {q : Nat → Bool}
    (agree : ∀ i (h : i < l.length), q i = p l[i]) : (List.range l.length).find? q = l.findIdx? p := by
  refine Option.ext fun i => ?_
  rw [List.find?_range_eq_some, List.findIdx?_eq_some_iff_getElem]
  constructor
  · rintro ⟨hq, hi, before⟩
    have hi := List.mem_range.1 hi
    refine ⟨hi, agree i hi ▸ hq, fun j hj => ?_⟩
    rw [← agree j (Nat.lt_trans hj hi)]
    simpa using before j hj
  · rintro ⟨hi, hp, before⟩
    refine ⟨(agree i hi).trans hp, List.mem_range.2 hi, fun j hj => ?_⟩
    rw [agree j (Nat.lt_trans hj hi)]
    simpa using before j hj

/-- The complete candidate is the first chord of just the keys that are held back. -/
theorem Gathering.complete {b : Buffer} (g : Gathering rules b) :
    complete? rules b = firstOf (keySets rules) b.names := by
  rw [complete?, g.candidates, covering, List.find?_filter, firstOf, keySets, List.findIdx?_map]
  refine find_range rules _ fun i hi => ?_
  have size : b.keys.length = b.names.length := (List.length_map _).symm
  rw [isComplete, triggerKeys_eq (List.getElem?_eq_getElem hi), size, Bool.eq_iff_iff, decide_eq_true_iff,
    Function.comp_apply, List.isPerm_iff, List.all_eq_true, beq_iff_eq]
  constructor
  · rintro ⟨all, same⟩
    have hs := List.subperm_of_subset g.distinct fun k hk => List.contains_iff_mem.1 (all k hk)
    exact (hs.perm_of_length_le (Nat.le_of_eq same)).symm
  · intro hp
    exact ⟨fun k hk => List.contains_iff_mem.2 (hp.mem_iff.2 hk), hp.length_eq⟩

theorem Gathering.join {b c : Buffer} (g : Gathering rules b) {k : Key} {instant : Nat} (fresh : k ∉ b.names)
    (keys : c.keys = b.keys ++ [(k, instant)]) (candidates : c.candidates = covering rules (b.names ++ [k])) :
    c.names = b.names ++ [k] ∧ Gathering rules c := by
  have names : c.names = b.names ++ [k] := by simp [Buffer.names, keys]
  refine ⟨names, ?_, ?_, names ▸ candidates⟩
  · rw [names, ← List.concat_eq_append]
    exact g.distinct.concat fresh
  · rw [names]
    exact List.append_ne_nil_of_right_ne_nil _ (List.cons_ne_nil k [])

/-! ## The end of a buffer -/

/-- When no timer runs, each key that is let go goes down on its own. -/
theorem ChordsOnly.replay_alone (h : ChordsOnly rules) (ks : List (Key × Nat)) :
    ∀ {s : State}, s.timers = [] → (ks.foldl (replay rules) s).timers = [] ∧
      dispatches (ks.foldl (replay rules) s).journal =
        dispatches s.journal ++ (ks.map (·.1)).map fun k => ([k], none) := by
  induction ks with
  | nil => exact fun calm => ⟨calm, (List.append_nil _).symm⟩
  | cons k ks ih =>
    intro s calm
    have hr : replay rules s k = dispatch rules [k.1] none k.2 s := by
      rw [replay, settleBy, settle_of_timers_nil calm, press, h.findRule_false]
    obtain ⟨calm, alone⟩ := ih (h.dispatch_timers [k.1] none k.2 s)
    rw [List.foldl_cons, hr, alone, dispatch_dispatches, List.append_assoc]
    exact ⟨calm, rfl⟩

theorem ChordsOnly.flush_alone (h : ChordsOnly rules) (b : Buffer) {s : State} (calm : s.timers = []) :
    (flush rules b s).timers = [] ∧
      dispatches (flush rules b s).journal = dispatches s.journal ++ b.ending none := by
  have ht : ({ s with buffer := none }.note (.flushed b.keys.length)).timers = [] := calm
  obtain ⟨calm, alone⟩ := h.replay_alone b.keys ht
  refine ⟨calm, alone.trans ?_⟩
  rw [dispatches_note rfl]
  rfl

theorem ChordsOnly.closeWindow_ending (h : ChordsOnly rules) {b : Buffer} (g : Gathering rules b) {s : State}
    (calm : s.timers = []) :
    (closeWindow rules b s).timers = [] ∧ dispatches (closeWindow rules b s).journal =
      dispatches s.journal ++ b.ending ((firstOf (keySets rules) b.names).map (b.names, ·)) := by
  have hn : dispatches (s.note (.windowClosed b.deadline)).journal = dispatches s.journal := dispatches_note rfl s
  unfold closeWindow
  simp only
  rw [g.complete, ← hn]
  cases firstOf (keySets rules) b.names with
  | some i => exact ⟨h.finish_timers b i _, finish_dispatches b i _⟩
  | none => exact h.flush_alone b calm

theorem ChordsOnly.advanceTo_closes (h : ChordsOnly rules) {b : Buffer} (g : Gathering rules b) {s : State}
    (calm : s.timers = []) (held : s.buffer = some b) {instant : Nat} (due : b.deadline.instant ≤ max s.now instant) :
    advanceTo rules instant s = closeWindow rules b (s.tick instant) := by
  have ht : (s.tick instant).timers = [] := s.tick_timers instant ▸ calm
  have hb : (s.tick instant).buffer = some b := (s.tick_buffer instant).trans held
  simp only [advanceTo, fireDue, hb]
  rw [if_pos (s.tick_clock instant ▸ due), settle_of_timers_nil ht]
  exact settle_of_timers_nil (h.closeWindow_ending g ht).1 _

/-- A key that goes down before the window closes joins the others, unless no chord has them all. -/
theorem ChordsOnly.extend_eq (h : ChordsOnly rules) {b c : Buffer} (g : Gathering rules b) {k : Key} {instant : Nat}
    (fresh : k ∉ b.names)
    (joined : c = { b with keys := b.keys ++ [(k, instant)], candidates := covering rules (b.names ++ [k]) })
    (s : State) :
    extend rules b k instant s =
      if c.candidates.isEmpty then press rules k instant true (flush rules b s)
      else tryFinish rules c { s with buffer := some c } := by
  have distinct : (b.names ++ [k]).Nodup := List.concat_eq_append ▸ g.distinct.concat fresh
  have narrowed := h.covering_join distinct
  subst joined
  unfold Buffer.names at narrowed
  simp only [extend, g.candidates, Buffer.names, narrowed]
  rfl

/-- A key that goes down before the window closes completes a chord, or waits with the others, or fits no chord. -/
theorem ChordsOnly.extend_fate (h : ChordsOnly rules) {b : Buffer} (g : Gathering rules b) {s : State}
    (calm : s.timers = []) {k : Key} (fresh : k ∉ b.names) (instant : Nat) :
    b.Fate ((firstOf (keySets rules) (b.names ++ [k])).map (b.names ++ [k], ·)) s (extend rules b k instant s) := by
  obtain ⟨c, joined⟩ : ∃ c : Buffer,
      c = { b with keys := b.keys ++ [(k, instant)], candidates := covering rules (b.names ++ [k]) } := ⟨_, rfl⟩
  have keys : c.keys = b.keys ++ [(k, instant)] := joined ▸ rfl
  obtain ⟨names, g'⟩ := g.join (c := c) fresh keys (joined ▸ rfl)
  have first := g'.complete
  rw [h.extend_eq g fresh joined, ← names]
  by_cases none_left : c.candidates.isEmpty = true
  · rw [if_pos none_left]
    rw [complete?, List.isEmpty_iff.1 none_left, List.find?_nil] at first
    obtain ⟨later, hl⟩ := press_dispatches rules k instant true (flush rules b s)
    rw [(h.flush_alone b calm).2] at hl
    rw [← first]
    exact .ends later hl.symm
  · have kept : b.keys <+: c.keys := keys ▸ List.prefix_append _ _
    rw [if_neg none_left, tryFinish, first]
    cases firstOf (keySets rules) c.names with
    | none => exact .waits rfl kept rfl
    | some i =>
      simp only
      by_cases hw : isWaiting rules c i = true
      · rw [if_pos hw]
        exact .waits rfl kept rfl
      · rw [if_neg hw]
        exact .ends [] ((finish_dispatches c i _).trans (List.append_nil _).symm)

/-! ## One input -/

section
variable {b : Buffer} {sets : List (List Key)} {now instant : Nat}

theorem Buffer.fires_due {i : Input} (due : b.deadline.instant ≤ i.clock now) :
    b.fires sets now i = (firstOf sets b.names).map (b.names, ·) := if_pos due

theorem Buffer.fires_down (early : ¬b.deadline.instant ≤ max now instant) (k : Key) :
    b.fires sets now (.down k instant) = (firstOf sets (b.names ++ [k])).map (b.names ++ [k], ·) := if_neg early

theorem Buffer.fires_up (early : ¬b.deadline.instant ≤ max now instant) (k : Key) :
    b.fires sets now (.up k instant) = none := if_neg early

end

theorem flushHolding_held {s : State} {b : Buffer} (held : s.buffer = some b) (k : Key) :
    flushHolding rules k s = if k ∈ b.names then flush rules b s else s := by
  unfold flushHolding
  simp only [held, Buffer.names, List.any_eq_true, beq_iff_eq, List.mem_map]

section
variable {b : Buffer} {s : State} {instant : Nat}

theorem advanceTo_early (calm : s.timers = []) (held : s.buffer = some b)
    (early : ¬b.deadline.instant ≤ max s.now instant) : advanceTo rules instant s = s.tick instant :=
  advanceTo_calm calm fun c hc => by
    obtain rfl := Option.some.inj (held.symm.trans hc)
    exact Nat.lt_of_not_le early

theorem ChordsOnly.advanceTo_due (h : ChordsOnly rules) (g : Gathering rules b) (calm : s.timers = [])
    (held : s.buffer = some b) (due : b.deadline.instant ≤ max s.now instant) :
    dispatches (advanceTo rules instant s).journal =
      dispatches s.journal ++ b.ending ((firstOf (keySets rules) b.names).map (b.names, ·)) := by
  rw [h.advanceTo_closes g calm held due, (h.closeWindow_ending g (s.tick_timers instant ▸ calm)).2, tick_dispatches]

theorem ChordsOnly.keyDown_fate (h : ChordsOnly rules) (g : Gathering rules b) (calm : s.timers = [])
    (held : s.buffer = some b) (k : Key) :
    b.Fate (b.fires (keySets rules) s.now (.down k instant)) s (keyDown rules k instant s) := by
  by_cases due : b.deadline.instant ≤ max s.now instant
  · obtain ⟨later, hl⟩ := keyDown_dispatches rules k instant s
    rw [h.advanceTo_due g calm held due] at hl
    rw [Buffer.fires_due (i := .down k instant) due]
    exact .ends later hl.symm
  · have held' : (s.tick instant).buffer = some b := (s.tick_buffer instant).trans held
    rw [Buffer.fires_down due, keyDown, advanceTo_early calm held due]
    by_cases down : (s.tick instant).isDown k = true
    · simp only [down, if_true]
      exact .waits held' List.prefix_rfl ((dispatches_note rfl _).trans (tick_dispatches s instant))
    · have fresh : k ∉ b.names := fun hk => down <| (State.isDown_iff _ k).2 <|
        List.mem_append_right _ (State.buffered_of_some held' ▸ hk)
      have calm' : ((s.tick instant).note (.accepted k (s.tick instant).now)).timers = [] :=
        s.tick_timers instant ▸ calm
      have same : dispatches ((s.tick instant).note (.accepted k (s.tick instant).now)).journal =
          dispatches s.journal := (dispatches_note rfl _).trans (tick_dispatches s instant)
      simp only [down, Bool.false_eq_true, if_false]
      rw [accept_held held']
      cases h.extend_fate g calm' fresh (s.tick instant).now with
      | waits held kept quiet => exact .waits held kept (quiet.trans same)
      | ends later ended => exact .ends later (same ▸ ended)

/-- The keys of a buffer do not outlast the release of one of them. -/
theorem ChordsOnly.keyUp_fate (h : ChordsOnly rules) (g : Gathering rules b) (calm : s.timers = [])
    (held : s.buffer = some b) (k : Key) :
    b.Fate (b.fires (keySets rules) s.now (.up k instant)) s (keyUp rules k instant s) := by
  by_cases due : b.deadline.instant ≤ max s.now instant
  · obtain ⟨later, hl⟩ := flushHolding_dispatches rules k (advanceTo rules instant s)
    rw [h.advanceTo_due g calm held due, keyUp_dispatches] at hl
    rw [Buffer.fires_due (i := .up k instant) due]
    exact .ends later hl.symm
  · have held' : (s.tick instant).buffer = some b := (s.tick_buffer instant).trans held
    rw [Buffer.fires_up due, keyUp, advanceTo_early calm held due, flushHolding_held held']
    by_cases member : k ∈ b.names
    · refine .ends [] ?_
      rw [release_dispatches, if_pos member, (h.flush_alone b (s.tick_timers instant ▸ calm)).2, tick_dispatches,
        List.append_nil]
    · rw [if_neg member]
      exact .waits ((release_frame rules _ _ _).1.trans held') List.prefix_rfl
        ((release_dispatches rules k _ _).trans (tick_dispatches s instant))

/-- One case for each kind of input. -/
theorem ChordsOnly.step_fate (h : ChordsOnly rules) (g : Gathering rules b) (calm : s.timers = [])
    (held : s.buffer = some b) (i : Input) : b.Fate (b.fires (keySets rules) s.now i) s (step rules s i) := by
  cases i with
  | down k instant => exact h.keyDown_fate g calm held k
  | up k instant => exact h.keyUp_fate g calm held k
  | advance instant =>
    by_cases due : b.deadline.instant ≤ max s.now instant
    · rw [Buffer.fires_due (i := .advance instant) due]
      exact .ends [] ((h.advanceTo_due g calm held due).trans (List.append_nil _).symm)
    · rw [step, advanceTo_early calm held due]
      exact .waits ((s.tick_buffer instant).trans held) List.prefix_rfl (tick_dispatches s instant)
  | take => exact .waits held List.prefix_rfl rfl

end

/-! ## Runs -/

/-- Over chords no timer runs, and the candidates of a buffer are the chords that have all its keys. -/
structure Collected (rules : List Manipulator) (s : State) : Prop where
  calm : s.timers = []
  candidates : ∀ b, s.buffer = some b → b.candidates = covering rules b.names

theorem Collected.of_free {s : State} (calm : s.timers = []) (free : s.buffer = none) : Collected rules s :=
  ⟨calm, fun b hb => by rw [free] at hb; cases hb⟩

theorem Tracked.buffered_nodup {x : Session} (h : Tracked x) : x.state.buffered.Nodup :=
  (List.nodup_append.1 (List.nodup_append.1 (h.owned.nodup_iff.2 h.down_nodup)).1).2.1

theorem Collected.move (h : ChordsOnly rules) {x y : Session} (hc : Collected rules x.state) (hx : Reachable rules x)
    (step : Move rules x y) : Collected rules y.state := by
  have distinct := (hx.move step).tracked.buffered_nodup
  cases step with
  | fire first =>
    have hm := earliest_mem first
    rw [hc.calm] at hm
    cases hm
  | dispatch simultaneous free oldest once single =>
    exact .of_free (h.dispatch_timers _ _ _ _) ((dispatch_frame rules _ _ _ _).1.trans free)
  | holdBack free oldest found together =>
    refine ⟨hc.calm, fun b hb => ?_⟩
    obtain rfl := Option.some.inj hb
    exact (h.openCandidates x.state _).trans (covering_one _).symm
  | @join b k instant candidates held oldest narrowed some_left =>
    have names : (b.keys ++ [(k, instant)]).map (·.1) = b.names ++ [k] := List.map_append
    refine ⟨hc.calm, fun c hb => ?_⟩
    obtain rfl := Option.some.inj hb
    rw [State.buffered_of_some rfl, names] at distinct
    rw [Buffer.names, names, narrowed, hc.candidates b held]
    exact h.covering_join distinct
  | close held due => exact ⟨hc.calm, hc.candidates⟩
  | finish held idle first ready => exact .of_free (h.finish_timers _ _ _) (finish_frame rules _ _ _).1
  | flush held => exact .of_free hc.calm rfl

/-- A release starts no countdown, because no chord has a delayed action. -/
theorem Collected.release (h : ChordsOnly rules) {s : State} (hc : Collected rules s) (ho : Orderly rules s) (k : Key)
    (instant : Nat) : Collected rules (Engine.release rules k instant s) := by
  have hf := release_frame rules k instant s
  refine ⟨State.timers_of_ticking ?_, hf.1.symm ▸ hc.candidates⟩
  have still : s.presses.countP (fun p => p.holdTimer.isSome) = 0 := by
    have ht := s.timers_length
    rw [hc.calm, State.ticking, List.length_nil] at ht
    omega
  have pending : (Engine.release rules k instant s).pending.countP (fun d => d.deadline.isSome) = 0 := by
    refine List.countP_eq_zero.2 fun d hd _ => ?_
    obtain ⟨m, hm, delayed⟩ := (ho.release k instant).delayed d hd
    rw [h.undelayed m (List.mem_of_getElem? hm)] at delayed
    cases delayed
  have presses : (Engine.release rules k instant s).presses.countP (fun p => p.holdTimer.isSome) = 0 := by
    refine List.countP_eq_zero.2 fun q hq ht => ?_
    obtain ⟨r, hr, hfrom⟩ := release_from ho k instant q hq
    exact List.countP_eq_zero.1 still r hr (hfrom.timed ht)
  rw [State.ticking, pending, presses]

theorem Reachable.collected (h : ChordsOnly rules) {x : Session} (hx : Reachable rules x) :
    Collected rules x.state := by
  induction hx with
  | start => exact .of_free rfl rfl
  | move hx step ih => exact ih.move h hx step
  | @tick x _ _ instant ih => exact ⟨x.state.tick_timers instant ▸ ih.calm, x.state.tick_buffer instant ▸ ih.candidates⟩
  | accept _ _ _ ih => exact ⟨ih.calm, ih.candidates⟩
  | refuse _ _ _ ih => exact ⟨ih.calm, ih.candidates⟩
  | release hx _ _ ih => exact ih.release h hx.orderly _ _
  | take _ _ ih => exact ⟨ih.calm, ih.candidates⟩

theorem ChordsOnly.run_gathering (h : ChordsOnly rules) {inputs : List Input} {b : Buffer}
    (held : (run rules inputs).buffer = some b) : (run rules inputs).timers = [] ∧ Gathering rules b := by
  obtain ⟨hx, -⟩ := reachable_session rules inputs
  rw [← session_state] at held ⊢
  have hc := hx.collected h
  refine ⟨hc.calm, ?_, fun hn => hx.tracked.opened b held (List.map_eq_nil_iff.1 hn), hc.candidates b held⟩
  rw [Buffer.names, ← State.buffered_of_some held]
  exact hx.tracked.buffered_nodup

theorem Gathering.ending_ne_nil {b : Buffer} (g : Gathering rules b) (fired : Option (List Key × Nat)) :
    b.ending fired ≠ [] := by
  cases fired with
  | some fired => exact List.cons_ne_nil _ _
  | none => exact fun hn => g.opened (List.map_eq_nil_iff.1 hn)

theorem ChordsOnly.run_quiet (h : ChordsOnly rules) {inputs more : List Input} {b : Buffer}
    (held : (run rules inputs).buffer = some b)
    (quiet : dispatches (run rules (inputs ++ more)).journal = dispatches (run rules inputs).journal) :
    ∃ b', (run rules (inputs ++ more)).buffer = some b' ∧ b.keys <+: b'.keys := by
  induction more using List.reverseRecOn with
  | nil => exact ⟨b, (List.append_nil inputs).symm ▸ held, List.prefix_rfl⟩
  | append_singleton more i ih =>
    rw [← List.append_assoc] at quiet ⊢
    have before := run_dispatches rules inputs more
    have after := run_dispatches rules (inputs ++ more) [i]
    rw [quiet] at after
    have same := before.eq_of_length (Nat.le_antisymm before.length_le after.length_le)
    obtain ⟨c, hc, kept⟩ := ih same.symm
    obtain ⟨calm, g⟩ := h.run_gathering hc
    rw [run_append] at quiet ⊢
    cases h.step_fate g calm hc i with
    | waits held more_kept _ => exact ⟨_, held, kept.trans more_kept⟩
    | ends later ended =>
      rw [quiet, ← same, List.append_assoc, List.self_eq_append_right] at ended
      exact absurd (List.append_eq_nil_iff.1 ended).1 (g.ending_ne_nil _)

/-- The first input that begins a press ends the buffer. -/
theorem ChordsOnly.run_ending (h : ChordsOnly rules) {inputs more : List Input} {last : Input} {b : Buffer}
    (held : (run rules inputs).buffer = some b)
    (quiet : dispatches (run rules (inputs ++ more)).journal = dispatches (run rules inputs).journal)
    (begins : dispatches (run rules (inputs ++ more ++ [last])).journal ≠ dispatches (run rules inputs).journal) :
    ∃ b' later, (run rules (inputs ++ more)).buffer = some b' ∧ b.keys <+: b'.keys ∧
      dispatches (run rules (inputs ++ more ++ [last])).journal = dispatches (run rules inputs).journal ++
        b'.ending (b'.fires (keySets rules) (run rules (inputs ++ more)).now last) ++ later := by
  obtain ⟨c, hc, kept⟩ := h.run_quiet held quiet
  obtain ⟨calm, g⟩ := h.run_gathering hc
  rw [run_append] at begins ⊢
  cases h.step_fate g calm hc last with
  | waits _ _ same => exact absurd (same.trans quiet) begins
  | ends later ended => exact ⟨c, later, hc, kept, quiet ▸ ended⟩

end

end KeyRules.Engine
