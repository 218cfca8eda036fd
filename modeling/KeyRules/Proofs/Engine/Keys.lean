import KeyRules.Proofs.Engine.Presses

/-!
# Keys that go down

An accepted key waits, is held back, or begins a press. At every moment the keys of the presses that began, those
in the buffer and those that wait are the accepted ones in their order (`Reachable.accounted`). The keys that
presses still hold, with those in the buffer and those that wait, are the ones that are down (`Reachable.tracked`).
-/

namespace KeyRules.Engine

/-- A press as the journal shows its beginning. -/
structure Beginning where
  press : Nat
  keys : List Key
  rule : Option Nat
  deriving DecidableEq, Repr

def Incident.begins? : Incident → Option Beginning
  | dispatched press keys rule _ _ => some ⟨press, keys, rule⟩
  | _ => none

def beginnings (journal : List Incident) : List Beginning := journal.filterMap Incident.begins?

def dispatchedKeys (journal : List Incident) : List Key := (beginnings journal).flatMap (·.keys)

@[simp] theorem beginnings_append (j more : List Incident) :
    beginnings (j ++ more) = beginnings j ++ beginnings more := List.filterMap_append

@[simp] theorem beginnings_cons (i : Incident) (j : List Incident) :
    beginnings (i :: j) = i.begins?.toList ++ beginnings j := by
  cases h : i.begins? <;> simp [beginnings, h]

@[simp] theorem beginnings_nil : beginnings [] = [] := rfl

theorem beginnings_eq_nil {j : List Incident} (h : ∀ i ∈ j, i.begins? = none) : beginnings j = [] :=
  List.filterMap_eq_nil_iff.2 h

theorem begins_of_sending (i : Incident) (hi : i.isSending = true) : i.begins? = none := by
  cases i <;> first | rfl | cases hi

theorem beginnings_bare (s : State) : beginnings s.bare.journal = beginnings s.journal :=
  filterMap_bare begins_of_sending s.journal

theorem beginnings_lines {s t : State} {more : List Incident} (h : t.bare.journal = s.bare.journal ++ more) :
    beginnings t.journal = beginnings s.journal ++ beginnings more := filterMap_lines begins_of_sending h

section
variable {rules : List Manipulator}

/-! ## Operations on the beginnings -/

theorem beginnings_endings (keys : List Key) (ps : List Pending) : beginnings (ps.map (ending keys)) = [] := by
  refine beginnings_eq_nil fun i hi => ?_
  obtain ⟨p, -, rfl | rfl⟩ := endings_mem hi <;> rfl

theorem beginnings_note {i : Incident} (hi : i.begins? = none) (s : State) :
    beginnings (s.note i).journal = beginnings s.journal := by
  simp [State.note, hi]

theorem endLines_beginnings (p : Press) (i : Nat) (m : Manipulator) (instant : Nat) :
    beginnings (endLines p i m instant) = [] := by
  refine beginnings_eq_nil fun l hl => ?_
  rcases endLines_mem hl with ⟨-, rfl⟩ | rfl <;> rfl

theorem fire_beginnings (s : State) (d : Deadline) (timer : Timer) :
    beginnings (fire rules s d timer).journal = beginnings s.journal := by
  have quiet : beginnings (fireLines d timer) = [] := by
    refine beginnings_eq_nil fun l hl => ?_
    obtain rfl | ⟨p, -, rfl | rfl⟩ | ⟨p, i, -, -, rfl⟩ := fireLines_mem hl <;> rfl
  rw [beginnings_lines (fire_journal rules s d timer), quiet, List.append_nil]

theorem dispatch_beginnings (keys : List Key) (rule : Option Nat) (instant : Nat) (s : State) :
    beginnings (dispatch rules keys rule instant s).journal =
      beginnings s.journal ++ [⟨s.serial + 1, keys, rule⟩] := by
  have quiet : beginnings (beginLines rules (s.serial + 1) rule) = [] := by
    refine beginnings_eq_nil fun l hl => ?_
    obtain ⟨i, rfl⟩ := beginLines_mem rules hl
    rfl
  rw [beginnings_lines (dispatch_journal rules keys rule instant s)]
  simp [dispatchLines, beginnings_endings, quiet, Incident.begins?]

theorem release_beginnings (k : Key) (instant : Nat) (s : State) :
    beginnings (release rules k instant s).journal = beginnings s.journal := by
  have quiet : beginnings (releaseLines rules k instant s) = [] := by
    refine beginnings_eq_nil fun l hl => ?_
    obtain rfl | ⟨p, -, rfl | ⟨i, -, ⟨-, rfl⟩ | rfl⟩⟩ := releaseLines_mem rules hl <;> rfl
  rw [beginnings_lines (release_journal rules k instant s), quiet, List.append_nil]

/-! ## Numbers of presses -/

theorem fire_serial (s : State) (d : Deadline) (timer : Timer) :
    (fire rules s d timer).serial = s.serial := by
  obtain ⟨ps, cs, h, -⟩ := fire_effect rules s d timer
  exact (congrArg State.serial h :)

theorem dispatch_serial (keys : List Key) (rule : Option Nat) (instant : Nat) (s : State) :
    s.serial + 1 ≤ (dispatch rules keys rule instant s).serial := by
  obtain ⟨p, cs, n, h, -, -, -, hn, -⟩ := dispatch_effect rules keys rule instant s
  exact Nat.le_trans hn (Nat.le_of_eq (congrArg State.serial h).symm)

theorem release_serial (k : Key) (instant : Nat) (s : State) :
    s.serial ≤ (release rules k instant s).serial := by
  obtain ⟨ps, cs, n, h, hn, -⟩ := release_effect rules k instant s
  exact Nat.le_trans hn (Nat.le_of_eq (congrArg State.serial h).symm)

/-- Every press that began has a number of its own, none of them given out after the last. -/
structure Numbered (s : State) : Prop where
  press_nodup : ((beginnings s.journal).map (·.press)).Nodup
  press_le : ∀ b ∈ beginnings s.journal, b.press ≤ s.serial

theorem Numbered.congr {s t : State} (h : Numbered s) (begun : beginnings t.journal = beginnings s.journal)
    (serial : s.serial ≤ t.serial) : Numbered t where
  press_nodup := begun ▸ h.press_nodup
  press_le b hb := Nat.le_trans (h.press_le b (begun ▸ hb)) serial

theorem Numbered.dispatch {s : State} (h : Numbered s) (keys : List Key) (rule : Option Nat) (instant : Nat) :
    Numbered (dispatch rules keys rule instant s) where
  press_nodup := by
    rw [dispatch_beginnings, List.map_append, List.nodup_append]
    refine ⟨h.press_nodup, by simp, fun a ha b hb => ?_⟩
    obtain ⟨c, hc, rfl⟩ := List.mem_map.1 ha
    rw [List.map_singleton, List.mem_singleton] at hb
    rw [hb]
    exact Nat.ne_of_lt (Nat.lt_succ_of_le (h.press_le c hc))
  press_le b hb := by
    have hs : s.serial + 1 ≤ (Engine.dispatch rules keys rule instant s).serial :=
      dispatch_serial keys rule instant s
    rw [dispatch_beginnings] at hb
    rcases List.mem_append.1 hb with hb | hb
    · have := h.press_le b hb
      omega
    · rw [List.mem_singleton.1 hb]
      exact hs

/-! ## Accepted keys -/

def Session.waitingKeys (x : Session) : List Key := x.waiting.map (·.1)

theorem beginnings_noteAll {more : List Incident} (hm : ∀ i ∈ more, i.begins? = none) (s : State) :
    beginnings (s.noteAll more).journal = beginnings s.journal := by
  simp [State.noteAll, beginnings_eq_nil hm]

theorem tick_beginnings (s : State) (instant : Nat) :
    beginnings (s.tick instant).journal = beginnings s.journal := by
  obtain ⟨more, ht, hm⟩ := s.tick_eq instant
  rw [ht]
  refine beginnings_noteAll (fun i hi => ?_) _
  obtain ⟨t, n, rfl⟩ := hm i hi
  rfl

theorem State.buffered_frame {s t : State} (h : t.buffer = s.buffer) : t.buffered = s.buffered := by
  rw [buffered, h, buffered]

variable (rules) in
theorem handOver_frame (b : Buffer) (i : Nat) (s : State) :
    (handOver rules b i s).bare.presses = s.bare.presses ∧ (handOver rules b i s).serial = s.serial ∧
      beginnings (handOver rules b i s).journal = beginnings s.journal := by
  obtain ⟨more, hs, hm⟩ := handOver_eq rules b i s
  rw [hs]
  refine ⟨rfl, rfl, beginnings_noteAll (fun j hj => ?_) _⟩
  obtain ⟨t, rfl⟩ := hm j hj
  rfl

theorem Numbered.move {x y : Session} (h : Numbered x.state) (m : Move rules x y) : Numbered y.state := by
  cases m with
  | fire first => exact h.congr (fire_beginnings _ _ _) (Nat.le_of_eq (fire_serial _ _ _).symm)
  | dispatch simultaneous free oldest fresh single => exact h.dispatch _ _ _
  | holdBack free oldest found together =>
    refine h.congr ?_ (Nat.le_succ _)
    simp [startBuffer, State.note, Incident.begins?]
  | join held oldest narrowed some_left => exact h.congr rfl (Nat.le_refl _)
  | close held due => exact h.congr (beginnings_note rfl _) (Nat.le_refl _)
  | @finish b i held idle first ready =>
    obtain ⟨-, hs, hb⟩ := handOver_frame rules b i x.state
    simp only [finish_eq]
    exact (h.congr hb (Nat.le_of_eq hs.symm)).dispatch _ _ _
  | flush held => exact h.congr (beginnings_note rfl _) (Nat.le_refl _)

theorem Reachable.numbered {x : Session} (h : Reachable rules x) : Numbered x.state := by
  induction h with
  | start => exact ⟨List.nodup_nil, fun _ hb => (List.not_mem_nil hb).elim⟩
  | move _ m ih => exact ih.move m
  | @tick x _ _ instant ih =>
    have hb := tick_beginnings x.state instant
    obtain ⟨more, ht, -⟩ := x.state.tick_eq instant
    rw [ht] at hb ⊢
    exact ih.congr hb (Nat.le_refl _)
  | accept _ _ _ ih => exact ih.congr (beginnings_note rfl _) (Nat.le_refl _)
  | refuse _ _ _ ih => exact ih.congr (beginnings_note rfl _) (Nat.le_refl _)
  | release _ _ _ ih => exact ih.congr (release_beginnings _ _ _) (release_serial _ _ _)
  | take _ _ ih => exact ih.congr rfl (Nat.le_refl _)

theorem Session.accounted_move {x y : Session} (m : Move rules x y)
    (h : dispatchedKeys x.state.journal ++ x.state.buffered ++ x.waitingKeys = x.accepted) :
    dispatchedKeys y.state.journal ++ y.state.buffered ++ y.waitingKeys = y.accepted := by
  unfold Session.waitingKeys dispatchedKeys at *
  cases m with
  | fire first =>
    simp only [fire_beginnings, State.buffered_frame (fire_frame rules _ _ _).1]
    exact h
  | dispatch simultaneous free oldest fresh single =>
    simp only [dispatch_beginnings, State.buffered_frame (dispatch_frame rules _ _ _ _).1]
    rw [State.buffered_of_none free, oldest] at h
    simpa [State.buffered_of_none free] using h
  | holdBack free oldest found together =>
    rw [State.buffered_of_none free, oldest] at h
    simpa [startBuffer, State.note, State.buffered, Incident.begins?] using h
  | join held oldest narrowed some_left =>
    rw [State.buffered_of_some held, oldest] at h
    simpa [State.buffered] using h
  | close held due =>
    simp only [beginnings_note (i := .windowClosed _) rfl]
    exact h
  | finish held idle first ready =>
    rw [State.buffered_of_some held, idle] at h
    simp only [finish_eq, dispatch_beginnings, (handOver_frame rules _ _ _).2.2, idle]
    rw [← finish_eq, State.buffered_of_none (finish_frame rules _ _ _).1]
    simpa using h
  | flush held =>
    rw [State.buffered_of_some held] at h
    simpa [State.note, State.buffered, Incident.begins?] using h

/-- Nothing is lost, repeated or reordered between the acceptance of a key and its dispatch. -/
theorem Reachable.accounted {x : Session} (h : Reachable rules x) :
    dispatchedKeys x.state.journal ++ x.state.buffered ++ x.waitingKeys = x.accepted := by
  induction h with
  | start => rfl
  | move _ m ih => exact Session.accounted_move m ih
  | @tick x _ _ instant ih =>
    have hb := tick_beginnings x.state instant
    obtain ⟨more, ht, -⟩ := x.state.tick_eq instant
    rw [ht] at hb ⊢
    rw [dispatchedKeys, hb]
    exact ih
  | @accept x _ idle k _ ih =>
    rw [← ih, dispatchedKeys, dispatchedKeys, beginnings_note rfl]
    simp [Session.waitingKeys, idle, State.note, State.buffered]
  | refuse _ _ _ ih =>
    rw [dispatchedKeys] at ih ⊢
    rw [beginnings_note rfl]
    exact ih
  | release _ _ _ ih =>
    rw [dispatchedKeys] at ih ⊢
    rw [release_beginnings, State.buffered_frame (release_frame rules _ _ _).1]
    exact ih
  | take _ _ ih => exact ih

/-- After any run the keys passed to dispatches, followed by those in the buffer, are the accepted ones in
their physical order. -/
theorem keys_dispatched_in_order (rules : List Manipulator) (inputs : List Input) :
    dispatchedKeys (run rules inputs).journal ++ (run rules inputs).buffered =
      (session rules inputs).accepted := by
  obtain ⟨hr, idle⟩ := reachable_session rules inputs
  have h := hr.accounted
  rw [Session.waitingKeys, idle, List.map_nil, List.append_nil, session_state] at h
  exact h

/-! ## Keys that are down -/

theorem fire_heldLists (s : State) (d : Deadline) (timer : Timer) :
    (fire rules s d timer).heldLists = s.heldLists := by
  obtain ⟨ps, cs, h, held, -⟩ := fire_effect rules s d timer
  rw [← heldLists_bare, h]
  exact held

theorem dispatch_heldLists (keys : List Key) (rule : Option Nat) (instant : Nat) (s : State) :
    (dispatch rules keys rule instant s).heldLists = s.heldLists ++ [keys] := by
  obtain ⟨p, cs, n, h, -, rfl, -⟩ := dispatch_effect rules keys rule instant s
  rw [← heldLists_bare, h]
  simp [State.heldLists, Function.comp_def, Press.bare, Press.disturb]

theorem release_heldLists {s : State} (ho : Orderly rules s) {k : Key} {p : Press} (hk : s.holder? k = some p)
    (instant : Nat) :
    s.heldLists.Perm (p.held :: (s.drop p.id).heldLists) ∧
    (release rules k instant s).heldLists.Perm
      (if (p.held.filter (· != k)).isEmpty then (s.drop p.id).heldLists
      else p.held.filter (· != k) :: (s.drop p.id).heldLists) := by
  have hp := (holder_mem hk).1
  refine ⟨(perm_cons_filter ho.presses_nodup hp).map Press.held, ?_⟩
  rw [← heldLists_bare, State.heldLists, release_presses rules hk]
  split
  · rw [← State.bare_drop]
    exact .of_eq (heldLists_bare (s.drop p.id))
  · rw [← State.bare_updatePress (Press.bare_keep _)]
    exact .trans (.of_eq (heldLists_bare _))
      ((perm_updatePress ho.presses_nodup hp (Press.keep (p.held.filter (· != k)))).map Press.held)

/-- Exactly one press, the buffer or the queue owns each key that is down. -/
structure Tracked (x : Session) : Prop where
  owned : (x.state.heldLists.flatten ++ x.state.buffered ++ x.waitingKeys).Perm x.down
  down_nodup : x.down.Nodup
  held : [] ∉ x.state.heldLists
  opened : ∀ b, x.state.buffer = some b → b.keys ≠ []

theorem State.isDown_iff (s : State) (k : Key) : s.isDown k = true ↔ k ∈ s.heldLists.flatten ++ s.buffered := by
  simp only [isDown, Bool.or_eq_true, List.any_eq_true, List.contains_iff_mem, List.mem_append, List.mem_flatten,
    heldLists, List.mem_map, exists_exists_and_eq_and]
  refine or_congr_right ?_
  cases hb : s.buffer with
  | none => simp [buffered, hb]
  | some b => simp [buffered, hb]

theorem holder_none {s : State} {k : Key} (h : s.holder? k = none) : k ∉ s.heldLists.flatten := by
  intro hk
  obtain ⟨l, hl, hkl⟩ := List.mem_flatten.1 hk
  obtain ⟨p, hp, rfl⟩ := List.mem_map.1 hl
  exact List.find?_eq_none.1 h p (List.mem_reverse.2 hp) (List.contains_iff_mem.2 hkl)

theorem filter_ne_of_not_mem {k : Key} {ks : List Key} (h : k ∉ ks) : ks.filter (· != k) = ks :=
  List.filter_eq_self.2 fun _ hj => bne_iff_ne.2 fun he => h (he ▸ hj)

/-- The key that goes up is no longer owned, and no press is left without keys. -/
theorem release_owned {s : State} (ho : Orderly rules s) (hn : s.heldLists.flatten.Nodup) (hs : [] ∉ s.heldLists)
    (k : Key) (instant : Nat) :
    (release rules k instant s).heldLists.flatten.Perm (s.heldLists.flatten.filter (· != k)) ∧
      [] ∉ (release rules k instant s).heldLists := by
  cases hk : s.holder? k with
  | none =>
    rw [release_none rules hk, filter_ne_of_not_mem (holder_none hk)]
    exact ⟨.refl _, hs⟩
  | some p =>
    obtain ⟨before, after⟩ := release_heldLists ho hk instant
    have hb := before.flatten
    rw [List.flatten_cons] at hb
    have hd : k ∉ (s.drop p.id).heldLists.flatten :=
      List.disjoint_of_nodup_append (hb.nodup_iff.1 hn) (holder_mem hk).2
    have hf := hb.filter (· != k)
    rw [List.filter_append, filter_ne_of_not_mem hd] at hf
    rw [before.mem_iff, List.mem_cons, not_or] at hs
    split at after
    · rename_i he
      rw [List.isEmpty_iff.1 he, List.nil_append] at hf
      exact ⟨after.flatten.trans hf.symm, fun h => hs.2 (after.mem_iff.1 h)⟩
    · rename_i he
      refine ⟨after.flatten.trans hf.symm, fun h => ?_⟩
      rcases List.mem_cons.1 (after.mem_iff.1 h) with h | h
      · exact he (List.isEmpty_iff.2 h.symm)
      · exact hs.2 h

theorem Tracked.release {x : Session} (h : Tracked x) (ho : Orderly rules x.state) (idle : x.waiting = [])
    {k : Key} (unbuffered : k ∉ x.state.buffered) (instant : Nat) :
    Tracked { x with
      state := release rules k instant x.state
      down := x.down.filter (· != k)
      releases := x.releases ++ [instant] } := by
  have hb := release_frame rules k instant x.state
  have hd := h.owned.filter (· != k)
  have hn := h.owned.nodup_iff.2 h.down_nodup
  simp only [Session.waitingKeys, idle, List.map_nil, List.append_nil, List.filter_append,
    filter_ne_of_not_mem unbuffered] at hd hn
  obtain ⟨owned, held⟩ := release_owned ho (List.nodup_append.1 hn).1 h.held k instant
  refine ⟨?_, h.down_nodup.filter _, held, fun b hs => h.opened b (hb.1 ▸ hs)⟩
  simp only [Session.waitingKeys, idle, List.map_nil, List.append_nil, State.buffered_frame hb.1]
  exact (owned.append_right _).trans hd

theorem Tracked.move {x y : Session} (h : Tracked x) (m : Move rules x y) : Tracked y := by
  obtain ⟨owned, nodup, held, opened⟩ := h
  unfold Session.waitingKeys at owned
  cases m with
  | @fire d timer first =>
    have hb := (fire_frame rules x.state d timer).1
    refine ⟨?_, nodup, ?_, fun b hs => opened b (hb ▸ hs)⟩
    · simp only [Session.waitingKeys, fire_heldLists, State.buffered_frame hb]
      exact owned
    · simp only [fire_heldLists]
      exact held
  | @dispatch k instant later simultaneous free oldest fresh single =>
    have hb := (dispatch_frame rules [k] (findRule rules x.state k simultaneous) instant x.state).1
    refine ⟨?_, nodup, ?_, fun b hs => opened b (hb ▸ hs)⟩
    · simp only [Session.waitingKeys, dispatch_heldLists, State.buffered_frame hb]
      rw [State.buffered_of_none free, oldest] at owned
      simpa [State.buffered_of_none free] using owned
    · simp only [dispatch_heldLists]
      simpa using held
  | holdBack free oldest found together =>
    refine ⟨?_, nodup, held, fun b hs => ?_⟩
    · rw [State.buffered_of_none free, oldest] at owned
      simpa [startBuffer, State.note, State.buffered, State.heldLists, Session.waitingKeys] using owned
    · obtain rfl := Option.some.inj hs
      exact List.cons_ne_nil _ _
  | join hb oldest narrowed some_left =>
    refine ⟨?_, nodup, held, fun b hs => ?_⟩
    · rw [State.buffered_of_some hb, oldest] at owned
      simpa [State.buffered, State.heldLists, Session.waitingKeys] using owned
    · obtain rfl := Option.some.inj hs
      simp
  | close hb due => exact ⟨owned, nodup, held, opened⟩
  | @finish b i hb idle first ready =>
    have hn := (finish_frame rules b i x.state).1
    have hl : (handOver rules b i x.state).heldLists = x.state.heldLists := by
      rw [← heldLists_bare, ← heldLists_bare x.state, State.heldLists, (handOver_frame rules b i x.state).1]
      rfl
    refine ⟨?_, nodup, ?_, fun c hs => by rw [hn] at hs; cases hs⟩
    · rw [State.buffered_of_some hb, idle] at owned
      simp only [Session.waitingKeys, State.buffered_of_none hn, idle]
      rw [finish_eq, dispatch_heldLists, hl]
      simpa using owned
    · simp only [finish_eq, dispatch_heldLists, hl]
      simpa [held] using opened b hb
  | flush hb =>
    refine ⟨?_, nodup, held, fun c hs => by cases hs⟩
    rw [State.buffered_of_some hb] at owned
    simpa [State.note, State.buffered, State.heldLists, Session.waitingKeys] using owned

theorem Reachable.tracked {x : Session} (h : Reachable rules x) : Tracked x := by
  induction h with
  | start => exact ⟨.refl _, List.nodup_nil, by simp [State.heldLists], fun b hb => by cases hb⟩
  | move _ m ih => exact ih.move m
  | @tick x _ idle instant ih =>
    obtain ⟨more, ht, -⟩ := x.state.tick_eq instant
    rw [ht]
    exact ⟨ih.owned, ih.down_nodup, ih.held, ih.opened⟩
  | @accept x _ idle k isUp ih =>
    have hd := ih.owned
    simp only [Session.waitingKeys, idle, List.map_nil, List.append_nil] at hd
    have hk : k ∉ x.down := by
      rw [← hd.mem_iff, ← State.isDown_iff, isUp]
      exact Bool.false_ne_true
    simp only [pressDown, if_neg hk]
    refine ⟨hd.append_right [k], ?_, ih.held, ih.opened⟩
    rw [List.nodup_append]
    exact ⟨ih.down_nodup, by simp, fun a ha b hb he => hk (List.mem_singleton.1 hb ▸ he ▸ ha)⟩
  | @refuse x _ idle k isDown ih =>
    have hd := ih.owned
    simp only [Session.waitingKeys, idle, List.map_nil, List.append_nil] at hd
    have hk : k ∈ x.down := by
      rw [← hd.mem_iff, ← State.isDown_iff, isDown]
    simp only [pressDown, if_pos hk]
    exact ⟨ih.owned, ih.down_nodup, ih.held, ih.opened⟩
  | release hx idle unbuffered ih => exact ih.release hx.orderly idle unbuffered _
  | take _ _ ih => exact ⟨ih.owned, ih.down_nodup, ih.held, ih.opened⟩

/-- Without keys that are down no press is in flight. -/
theorem Tracked.presses_nil {x : Session} (h : Tracked x) (up : x.down = []) : x.state.presses = [] := by
  have ho := h.owned
  rw [up, List.perm_nil, List.append_eq_nil_iff, List.append_eq_nil_iff, List.flatten_eq_nil_iff] at ho
  cases hp : x.state.presses with
  | nil => rfl
  | cons p ps =>
    have hm : p.held ∈ x.state.heldLists := by simp [State.heldLists, hp]
    exact (h.held (ho.1.1 _ hm ▸ hm)).elim

end

end KeyRules.Engine
