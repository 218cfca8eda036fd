import KeyRules.Proofs.Engine.Bare

/-!
# What an operation does

A timer that fires, a press that begins and a key that goes up each have one effect on the bare state: which
presses and delayed actions are left, and which lines the journal gains. Facts about the engine that only need
that much cite the effect and leave the cases of the operation alone.
-/

namespace KeyRules.Engine

def State.heldLists (s : State) : List (List Key) := s.presses.map (·.held)

theorem heldLists_bare (s : State) : s.bare.heldLists = s.heldLists := by
  simp [State.heldLists, Function.comp_def, Press.bare]

theorem State.heldLists_updatePress {f : Press → Press} (hf : ∀ p, (f p).held = p.held) (s : State) (id : Nat) :
    (s.updatePress id f).heldLists = s.heldLists := by
  simp only [heldLists, updatePress, List.map_map]
  refine List.map_congr_left fun p _ => ?_
  by_cases h : p.id = id <;> simp [h, hf]

/-! ## Lines -/

/-- What a projection of the journal does not see in the lines of sending, it sees in the bare state. -/
theorem filterMap_bare {α : Type} {f : Incident → Option α} (hf : ∀ i, i.isSending = true → f i = none)
    (j : List Incident) : (j.filter fun i => !i.isSending).filterMap f = j.filterMap f := by
  induction j with
  | nil => rfl
  | cons i j ih =>
    cases hi : i.isSending with
    | true => simp [hi, hf i hi, ih]
    | false => simp [hi, List.filterMap_cons, ih]

theorem filterMap_lines {α : Type} {f : Incident → Option α} (hf : ∀ i, i.isSending = true → f i = none)
    {s t : State} {more : List Incident} (h : t.bare.journal = s.bare.journal ++ more) :
    t.journal.filterMap f = s.journal.filterMap f ++ more.filterMap f := by
  rw [← filterMap_bare hf t.journal, ← filterMap_bare hf s.journal, ← List.filterMap_append]
  exact congrArg (List.filterMap f) h

theorem filterMap_getLast {α : Type} {f : Incident → Option α} {journal : List Incident} {a : α}
    (h : (journal.filterMap f).getLast? = some a) :
    ∃ earlier line later, journal = earlier ++ line :: later ∧ f line = some a ∧ later.filterMap f = [] := by
  obtain ⟨before, hb⟩ := List.getLast?_eq_some_iff.1 h
  obtain ⟨front, back, rfl, -, hback⟩ := List.filterMap_eq_append_iff.1 hb
  obtain ⟨quiet, line, later, rfl, -, hline, none_left⟩ := List.filterMap_eq_cons_iff.1 hback
  exact ⟨front ++ quiet, line, later, by simp, hline, none_left⟩

def fireLines (d : Deadline) : Timer → List Incident
  | .countdown p => [.fired d, .invoked p.rule d.instant, .emitted p.press p.rule .invoked]
  | .hold p => .fired d :: (p.rule.map fun i => .emitted p.id i .hold).toList

theorem fireLines_mem {d : Deadline} {timer : Timer} {l : Incident} (hl : l ∈ fireLines d timer) :
    l = .fired d ∨
      (∃ p, timer = .countdown p ∧ (l = .invoked p.rule d.instant ∨ l = .emitted p.press p.rule .invoked)) ∨
      ∃ p i, timer = .hold p ∧ p.rule = some i ∧ l = .emitted p.id i .hold := by
  cases timer with
  | countdown p =>
    simp only [fireLines, List.mem_cons, List.not_mem_nil, or_false] at hl
    exact hl.imp_right fun hl => .inl ⟨p, rfl, hl⟩
  | hold p =>
    refine (List.mem_cons.1 hl).imp_right fun hl => .inr ?_
    obtain ⟨i, hi, rfl⟩ := Option.map_eq_some_iff.1 (Option.mem_toList.1 hl)
    exact ⟨p, i, rfl, hi, rfl⟩

theorem endings_mem {keys : List Key} {ps : List Pending} {l : Incident} (hl : l ∈ ps.map (ending keys)) :
    ∃ d ∈ ps, l = .dropped d.press d.rule ∨ l = .emitted d.press d.rule .canceled := by
  obtain ⟨d, hd, rfl⟩ := List.mem_map.1 hl
  refine ⟨d, hd, ?_⟩
  unfold ending
  split
  · exact .inl rfl
  · exact .inr rfl

section
variable (rules : List Manipulator)

def beginLines (id : Nat) (rule : Option Nat) : List Incident :=
  ((rule.filter fun i => rules[i]?.isSome).map fun i => .emitted id i .press).toList

def dispatchLines (keys : List Key) (rule : Option Nat) (instant : Nat) (s : State) : List Incident :=
  .dispatched (s.serial + 1) keys rule instant s.flags ::
    (s.running.map (ending keys) ++ beginLines rules (s.serial + 1) rule)

def releaseLines (k : Key) (instant : Nat) (s : State) : List Incident :=
  match s.holder? k with
  | none => [.strayUp k]
  | some p =>
    if (p.held.filter (· != k)).isEmpty then
      .released p.id :: ((p.rule.bind fun i => rules[i]?.map (endLines p i · instant)).getD [])
    else []

theorem beginLines_mem {id : Nat} {rule : Option Nat} {l : Incident} (hl : l ∈ beginLines rules id rule) :
    ∃ i, l = .emitted id i .press := by
  obtain ⟨i, -, rfl⟩ := Option.map_eq_some_iff.1 (Option.mem_toList.1 hl)
  exact ⟨i, rfl⟩

theorem bind_unmatched {α : Type} {rule : Option Nat} (hr : ∀ i, rule = some i → rules[i]? = none)
    (f : Nat → Manipulator → α) : (rule.bind fun i => rules[i]?.map (f i)) = none := by
  refine Option.bind_eq_none_iff.2 fun i hi => ?_
  rw [hr i hi]
  rfl

theorem endLines_mem {p : Press} {i : Nat} {m : Manipulator} {instant : Nat} {l : Incident}
    (hl : l ∈ endLines p i m instant) :
    (isTap m p instant = true ∧ l = .emitted p.id i .tap) ∨ l = .emitted p.id i .release := by
  rcases List.mem_append.1 hl with hl | hl
  · split at hl
    · rename_i tap
      exact .inl ⟨tap, List.mem_singleton.1 hl⟩
    · cases hl
  · split at hl
    · cases hl
    · exact .inr (List.mem_singleton.1 hl)

/-- A key that goes up is stray, or it ends its press. Only a press that is alone is tapped. -/
theorem releaseLines_mem {k : Key} {instant : Nat} {s : State} {l : Incident}
    (hl : l ∈ releaseLines rules k instant s) :
    l = .strayUp k ∨ ∃ p, (s.holder? k = some p ∧ (p.held.filter (· != k)).isEmpty = true) ∧
      (l = .released p.id ∨ ∃ i, p.rule = some i ∧
        (p.isAlone = true ∧ l = .emitted p.id i .tap ∨ l = .emitted p.id i .release)) := by
  unfold releaseLines at hl
  split at hl
  · exact .inl (List.mem_singleton.1 hl)
  · rename_i p hk
    split at hl
    · rename_i last
      refine .inr ⟨p, ⟨hk, last⟩, (List.mem_cons.1 hl).imp_right fun hl => ?_⟩
      obtain ⟨i, m, hr, hm⟩ | hr := rule_cases rules p.rule
      · rw [hr, Option.bind_some, hm] at hl
        refine ⟨i, hr, (endLines_mem hl).imp_left fun ⟨tap, he⟩ => ⟨?_, he⟩⟩
        simp only [isTap, Bool.and_eq_true] at tap
        exact tap.1.1
      · rw [bind_unmatched rules hr] at hl
        cases hl
    · cases hl

/-! ## Effects -/

/-- A timer marks a press at most and takes delayed actions away. -/
theorem fire_effect (s : State) (d : Deadline) (timer : Timer) :
    ∃ ps cs, (fire rules s d timer).bare =
        { s.bare with presses := ps, pending := cs, journal := s.bare.journal ++ fireLines d timer } ∧
      ps.map (·.held) = s.heldLists ∧ cs.Sublist s.pending := by
  cases timer with
  | countdown p =>
    refine ⟨s.bare.presses, (s.forgetPending p.press).pending, ?_, ?_, List.filter_sublist⟩
    · rw [fire, bare_fireCountdown, State.bare_note rfl]
      simp [State.note, State.forgetPending, fireLines]
    · exact heldLists_bare s
  | hold p =>
    have held : (s.bare.updatePress p.id Press.fired).presses.map (·.held) = s.heldLists :=
      (State.heldLists_updatePress (f := Press.fired) (fun _ => rfl) s.bare p.id).trans (heldLists_bare s)
    rw [fire]
    cases hp : p.rule with
    | none =>
      refine ⟨(s.bare.updatePress p.id Press.fired).presses, s.pending, ?_, held, .refl _⟩
      rw [bare_fireHold_plain rules _ hp, State.bare_note rfl]
      simp [State.note, State.updatePress, fireLines, hp]
    | some i =>
      rw [bare_fireHold rules _ hp, State.bare_note rfl]
      split
      · refine ⟨(s.bare.updatePress p.id Press.fired).presses, (s.forgetPending p.id).pending, ?_, held,
          List.filter_sublist⟩
        simp [State.note, State.updatePress, State.forgetPending, fireLines, hp]
      · refine ⟨(s.bare.updatePress p.id Press.fired).presses, s.pending, ?_, held, .refl _⟩
        simp [State.note, State.updatePress, fireLines, hp]

/-- A press that begins comes last, stops the countdowns and may add a delayed action that rests. -/
theorem dispatch_effect (keys : List Key) (rule : Option Nat) (instant : Nat) (s : State) :
    ∃ p cs n, (dispatch rules keys rule instant s).bare =
        { s.bare with
          presses := s.bare.presses.map Press.disturb ++ [p]
          pending := s.resting ++ cs
          serial := n
          journal := s.bare.journal ++ dispatchLines rules keys rule instant s } ∧
      p.id = s.serial + 1 ∧ p.held = keys ∧ (p.holdTimer.isSome = true → rule = p.rule) ∧ s.serial + 1 ≤ n ∧
      ∀ c ∈ cs, c.deadline = none ∧ c.owners = keys ∧ rule = some c.rule := by
  obtain ⟨i, m, rfl, hm⟩ | hr := rule_cases rules rule
  · refine ⟨begun (s.serial + 1) keys i instant m, awaited (s.serial + 1) keys i m,
      s.serial + 1 + if m.holdThreshold.isSome then 1 else 0, ?_, rfl, rfl, fun _ => rfl, Nat.le_add_right _ _,
      fun c hc => ?_⟩
    · rw [bare_dispatch_rule rules keys hm]
      simp [dispatchLines, beginLines, Option.filter, hm]
    · unfold awaited at hc
      split at hc
      · obtain rfl := List.mem_singleton.1 hc
        exact ⟨rfl, rfl, rfl⟩
      · cases hc
  · refine ⟨{ id := s.serial + 1, held := keys, rule := none, since := instant }, [], s.serial + 1, ?_, rfl, rfl,
      (fun h => by cases h), Nat.le_refl _, fun c hc => by cases hc⟩
    have hn : rule.filter (fun i => rules[i]?.isSome) = none :=
      Option.filter_eq_none_iff.2 fun i hi => by simp [hr i hi]
    rw [bare_dispatch_plain rules keys hr]
    simp [dispatchLines, beginLines, hn]

theorem startCountdown_mem {id instant : Nat} {m : Manipulator} {s : State} {c : Pending}
    (hc : c ∈ (startCountdown id m instant s).pending) :
    (c ∈ s.pending ∧ (m.delayed.isSome = true → ¬(c.press = id ∧ c.deadline = none))) ∨
      ∃ d ∈ s.pending, ∃ l n, m.delayed = some l ∧ d.press = id ∧ d.deadline = none ∧
        c = { d with deadline := some ⟨after instant l.delay.toNat, n⟩ } := by
  unfold startCountdown at hc
  cases hm : m.delayed with
  | none =>
    rw [hm] at hc
    exact .inl ⟨hc, fun h => by cases h⟩
  | some l =>
    rw [hm] at hc
    obtain ⟨d, hd, rfl⟩ := List.mem_map.1 hc
    by_cases h : d.press = id ∧ d.deadline = none
    · rw [if_pos h]
      exact .inr ⟨d, hd, l, _, rfl, h.1, h.2, rfl⟩
    · rw [if_neg h]
      exact .inl ⟨hd, fun _ => h⟩

/-- Only the countdown of the press that ended starts. -/
theorem settled_pending {p : Press} {i : Nat} {m : Manipulator} {instant : Nat} {b : State} {c : Pending}
    (hc : c ∈ (settled p i m instant b).pending) :
    c ∈ b.pending ∨ ∃ d ∈ b.pending, ∃ e, d.press = p.id ∧ c = { d with deadline := some e } := by
  have started : ∀ t : State, c ∈ (startCountdown p.id m instant t).pending →
      c ∈ t.pending ∨ ∃ d ∈ t.pending, ∃ e, d.press = p.id ∧ c = { d with deadline := some e } := by
    intro t ht
    obtain ⟨hc, -⟩ | ⟨d, hd, l, n, -, hid, -, rfl⟩ := startCountdown_mem ht
    · exact .inl hc
    · exact .inr ⟨d, hd, _, hid, rfl⟩
  unfold settled at hc
  cases ht : isTap m p instant with
  | false =>
    simp only [ht, Bool.false_and, Bool.false_eq_true, if_false] at hc
    exact started (b.note _) hc
  | true =>
    simp only [ht, Bool.true_and, if_true] at hc
    split at hc
    · exact .inl (List.mem_filter.1 hc).1
    · exact started ((b.note _).note _) hc

/-- A key that goes up starts countdowns or takes delayed actions away. -/
theorem release_effect (k : Key) (instant : Nat) (s : State) :
    ∃ ps cs n, (release rules k instant s).bare =
        { s.bare with
          presses := ps
          pending := cs
          serial := n
          journal := s.bare.journal ++ releaseLines rules k instant s } ∧
      s.serial ≤ n ∧ ∀ c ∈ cs, c ∈ s.pending ∨ ∃ d ∈ s.pending, ∃ e, c = { d with deadline := some e } := by
  cases hk : s.holder? k with
  | none =>
    refine ⟨s.bare.presses, s.pending, s.serial, ?_, Nat.le_refl _, fun c hc => .inl hc⟩
    rw [release_none rules hk, State.bare_note rfl]
    simp [State.note, releaseLines, hk]
  | some p =>
    rw [bare_release rules hk]
    split
    · rename_i last
      obtain ⟨i, m, hr, hm⟩ | hr := rule_cases rules p.rule
      · obtain ⟨n, cs, hn, he⟩ := settled_eq p i m instant ((s.bare.drop p.id).note (.released p.id))
        have hp := @settled_pending p i m instant ((s.bare.drop p.id).note (.released p.id))
        rw [he] at hp
        refine ⟨(s.bare.drop p.id).presses, cs, n, ?_, hn, fun c hc => (hp hc).imp_right ?_⟩
        · rw [bare_endPress_rule rules hr hm, he]
          simp [State.note, State.drop, releaseLines, hk, last, hr, hm]
        · rintro ⟨d, hd, e, -, rfl⟩
          exact ⟨d, hd, e, rfl⟩
      · refine ⟨(s.bare.drop p.id).presses, s.pending, s.serial, ?_, Nat.le_refl _, fun c hc => .inl hc⟩
        rw [bare_endPress_plain rules hr]
        simp [State.note, State.drop, releaseLines, hk, last, bind_unmatched rules hr]
    · rename_i left
      refine ⟨(s.bare.updatePress p.id (Press.keep (p.held.filter (· != k)))).presses, s.pending, s.serial, ?_,
        Nat.le_refl _, fun c hc => .inl hc⟩
      simp only [State.updatePress, releaseLines, hk, left, List.append_nil, Bool.false_eq_true, if_false]
      rfl

theorem fire_journal (s : State) (d : Deadline) (timer : Timer) :
    (fire rules s d timer).bare.journal = s.bare.journal ++ fireLines d timer := by
  obtain ⟨ps, cs, h, -⟩ := fire_effect rules s d timer
  rw [h]

theorem dispatch_journal (keys : List Key) (rule : Option Nat) (instant : Nat) (s : State) :
    (dispatch rules keys rule instant s).bare.journal =
      s.bare.journal ++ dispatchLines rules keys rule instant s := by
  obtain ⟨p, cs, n, h, -⟩ := dispatch_effect rules keys rule instant s
  rw [h]

theorem release_journal (k : Key) (instant : Nat) (s : State) :
    (release rules k instant s).bare.journal = s.bare.journal ++ releaseLines rules k instant s := by
  obtain ⟨ps, cs, n, h, -⟩ := release_effect rules k instant s
  rw [h]

/-! ## Lines of the journal between the others -/

theorem State.bare_noteAll {more : List Incident} (hm : ∀ i ∈ more, i.isSending = false) (s : State) :
    (s.noteAll more).bare = s.bare.noteAll more := by
  have hf : more.filter (fun i => !i.isSending) = more := by
    refine List.filter_eq_self.2 fun i hi => ?_
    rw [hm i hi]
    rfl
  simp only [noteAll, bare, List.filter_append, hf]

theorem State.tick_eq (s : State) (instant : Nat) :
    ∃ more, s.tick instant = { s with now := max s.now instant }.noteAll more ∧
      ∀ i ∈ more, ∃ t n, i = .late t n := by
  unfold tick
  split
  · exact ⟨[.late instant s.now], rfl, fun i hi => ⟨instant, s.now, List.mem_singleton.1 hi⟩⟩
  · exact ⟨[], by simp [noteAll], fun i hi => by cases hi⟩

theorem State.bare_tick (s : State) (instant : Nat) :
    ∃ more, (s.tick instant).bare = { s with now := max s.now instant }.bare.noteAll more ∧
      ∀ i ∈ more, ∃ t n, i = .late t n := by
  obtain ⟨more, ticked, late⟩ := s.tick_eq instant
  refine ⟨more, ?_, late⟩
  rw [ticked, bare_noteAll fun l hm => by obtain ⟨t, n, rfl⟩ := late l hm; rfl]

/-- What holds at another time holds once the clock moved, if it outlasts a complaint. -/
theorem State.tick_of {P : State → Prop} {s : State} {instant : Nat} (clock : P { s with now := max s.now instant })
    (late : ∀ u t n, P u → P (u.note (.late t n))) : P (s.tick instant) := by
  unfold tick
  split
  · exact late _ instant s.now clock
  · exact clock

/-- The state in which the keys of a complete buffer are dispatched. -/
def handOver (b : Buffer) (i : Nat) (s : State) : State :=
  match rules[i]? with
  | none => { s with buffer := none }
  | some m => { s with buffer := none }.note (.matched i m.trigger b)

theorem finish_eq (b : Buffer) (i : Nat) (s : State) :
    finish rules b i s =
      dispatch rules (b.keys.map (·.1)) (some i) (b.lastKey s.now) (handOver rules b i s) := by
  unfold finish handOver
  cases rules[i]? <;> rfl

theorem handOver_eq (b : Buffer) (i : Nat) (s : State) :
    ∃ more, handOver rules b i s = { s with buffer := none }.noteAll more ∧
      ∀ j ∈ more, ∃ t, j = .matched i t b := by
  unfold handOver
  split
  · exact ⟨[], by simp [State.noteAll], fun j hj => by cases hj⟩
  · rename_i m _
    exact ⟨[.matched i m.trigger b], rfl, fun j hj => ⟨m.trigger, List.mem_singleton.1 hj⟩⟩

theorem bare_handOver (b : Buffer) (i : Nat) (s : State) :
    ∃ more, (handOver rules b i s).bare = { s with buffer := none }.bare.noteAll more ∧
      ∀ j ∈ more, ∃ t, j = .matched i t b := by
  obtain ⟨more, handed, matched⟩ := handOver_eq rules b i s
  refine ⟨more, ?_, matched⟩
  rw [handed, State.bare_noteAll fun l hm => by obtain ⟨t, rfl⟩ := matched l hm; rfl]

variable {rules} in
/-- What holds without the buffer holds once its keys are handed over, if it outlasts the line that tells so. -/
theorem handOver_of {P : State → Prop} {b : Buffer} {i : Nat} {s : State} (emptied : P { s with buffer := none })
    (matched : ∀ u t, P u → P (u.note (.matched i t b))) : P (handOver rules b i s) := by
  unfold handOver
  split
  · exact emptied
  · exact matched _ _ emptied

end

end KeyRules.Engine
