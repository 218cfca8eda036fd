import KeyRules.Proofs.ChordEnding
import KeyRules.Proofs.Engine.Candidates
import KeyRules.Proofs.Engine.Gates
import KeyRules.Proofs.Engine.Slices

/-!
# How a buffer is resolved

At every moment of every run a buffer holds keys that differ, and lists the rules that take them together, of those with
open gates when its first key went down (`Reachable.wellFormed`). A press of a simultaneous rule begins only with the
keys of a buffer, at the first rule of the list that is complete (`Reachable.grounded`). Triggers of compiled rules have
two keys at least, so between inputs a complete rule has one before it that waits (`run_patient`). Together this is
resolution in the order of declaration: `buffers_resolve_in_order`.
-/

namespace KeyRules.Engine

section
variable {rules : List Manipulator}

/-! ## Well-formed buffers -/

variable (rules) in
/-- After these lines a buffer has keys that differ, and lists the simultaneous rules that take them of those with open
gates at the last opening. -/
structure Buffer.WellFormed (journal : List Incident) (b : Buffer) : Prop where
  opened : b.names ≠ []
  distinct : b.names.Nodup
  some_left : b.candidates ≠ []
  sorted : b.candidates.Pairwise (· < ·)
  listed : ∃ start first candidates flags later,
    journal = start ++ .buffered first candidates flags :: later ∧
    (∀ key others flags, .buffered key others flags ∉ later) ∧ Told rules start flags ∧
    b.names.head? = some first ∧
    ∀ i, i ∈ b.candidates ↔ ∃ m, rules[i]? = some m ∧ m.trigger.isTogether = true ∧
      m.gates.all (Gate.isOpen flags) = true ∧ m.trigger.accepts b.names = true

theorem Trigger.together_of_accepts {t : Trigger} {ks : List Key} (h : t.accepts ks = true) : t.isTogether = true := by
  cases t with
  | single k anyModifiers => cases h
  | together set order window => rfl

theorem takes_iff {flags : List Flag} {ks : List Key} {m : Manipulator} :
    takes flags ks m = true ↔ m.trigger.isTogether = true ∧ m.gates.all (Gate.isOpen flags) = true ∧
      m.trigger.accepts ks = true := by
  rw [takes, Bool.and_eq_true]
  exact ⟨fun reacts => ⟨Trigger.together_of_accepts reacts.2, reacts⟩, And.right⟩

theorem Reachable.wellFormed {x : Session} (hx : Reachable rules x) {b : Buffer} (held : x.state.buffer = some b) :
    b.WellFormed rules x.state.bare.journal := by
  obtain ⟨o, opened⟩ := hx.preceded.opened b held
  obtain ⟨some_left, listing⟩ := hx.listed b held
  have listing := listing o opened.last
  obtain ⟨start, later, split, quiet⟩ := last_opening opened.last
  have read : GatesRead rules start (.buffered o.key o.candidates o.flags) :=
    gatesRead_kept.chronicle hx start _ later split
  refine ⟨listing.opened, ?_, some_left, listing.sorted, start, o.key, o.candidates, o.flags, later, split, quiet,
    read.1, ?_, fun i => ?_⟩
  · rw [Buffer.names, ← State.buffered_of_some held]
    exact hx.tracked.buffered_nodup
  · rw [Buffer.names, List.head?_map]
    exact opened.first
  · simp only [listing.mem_iff, takes_iff]

theorem Buffer.WellFormed.accepted {journal : List Incident} {b : Buffer} (h : b.WellFormed rules journal) {i : Nat}
    (candidate : i ∈ b.candidates) :
    ∃ m, rules[i]? = some m ∧ m.trigger.isTogether = true ∧ m.trigger.accepts b.names = true := by
  obtain ⟨_, _, _, _, _, -, -, -, -, listed⟩ := h.listed
  obtain ⟨m, placed, together, -, accepts⟩ := (listed i).1 candidate
  exact ⟨m, placed, together, accepts⟩

theorem Buffer.WellFormed.asides {journal more : List Incident} {b : Buffer} (h : b.WellFormed rules journal)
    (asides : ∀ l ∈ more, l.isAside) : b.WellFormed rules (journal ++ more) where
  opened := h.opened
  distinct := h.distinct
  some_left := h.some_left
  sorted := h.sorted
  listed := by
    obtain ⟨start, first, candidates, flags, later, split, quiet, rest⟩ := h.listed
    refine ⟨start, first, candidates, flags, later ++ more, ?_, fun key others flags hl => ?_, rest⟩
    · rw [split, List.append_assoc, List.cons_append]
    · rcases List.mem_append.1 hl with hl | hl
      · exact quiet key others flags hl
      · cases (asides _ hl).2

/-! ## Presses that a buffer begins -/

variable (rules) in
/-- A buffer goes to rule `i`: that is its first complete candidate, and at this time the window is over or no candidate
before it waits. -/
structure Buffer.GoesTo (now : Nat) (journal : List Incident) (b : Buffer) (i : Nat) : Prop where
  wellFormed : b.WellFormed rules journal
  first : complete? rules b = some i
  ready : isWaiting rules b i = false ∨ b.deadline.instant ≤ now

/-- The line does not say that a buffer goes to a rule. -/
def Incident.isUnmatched : Incident → Bool
  | matched _ _ _ => false
  | _ => true

variable (rules) in
/-- Wherever a buffer goes to a rule it goes to the right one, and a press of a simultaneous rule has the keys of the
buffer that went there. -/
def Grounded (now : Nat) (before : List Incident) : Incident → Prop
  | .matched i _ b => b.GoesTo rules now before i
  | .dispatched _ keys (some i) _ _ => rules[i]?.any (·.trigger.isTogether) = true →
    ∃ m b, rules[i]? = some m ∧ before.getLast? = some (.matched i m.trigger b) ∧ keys = b.names
  | _ => True

theorem Grounded.later {now then_now : Nat} (later : now ≤ then_now) {before : List Incident} {l : Incident}
    (h : Grounded rules now before l) : Grounded rules then_now before l := by
  cases l with
  | matched i t b => exact { h with ready := h.ready.imp_right fun due => Nat.le_trans due later }
  | dispatched press keys rule instant flags => cases rule <;> exact h
  | _ => trivial

theorem grounded_quiet {now : Nat} {before : List Incident} {l : Incident} (begins : l.begins? = none)
    (unmatched : l.isUnmatched = true) : Grounded rules now before l := by
  cases l with
  | matched i t b => cases unmatched
  | dispatched press keys rule instant flags => cases begins
  | _ => trivial

theorem chronicle_grounded {now : Nat} {j more : List Incident} (h : Chronicle (Grounded rules now) j)
    (quiet : ∀ l ∈ more, l.begins? = none ∧ l.isUnmatched = true) :
    Chronicle (Grounded rules now) (j ++ more) := by
  refine h.append fun before l after he => ?_
  have hl := quiet l (he ▸ List.mem_append_right _ List.mem_cons_self)
  exact grounded_quiet hl.1 hl.2

theorem grounded_note {now : Nat} {s : State} (h : Chronicle (Grounded rules now) s.bare.journal) {l : Incident}
    (sending : l.isSending = false) (begins : l.begins? = none) (unmatched : l.isUnmatched = true) :
    Chronicle (Grounded rules now) (s.note l).bare.journal := by
  rw [State.bare_note sending]
  exact h.snoc (grounded_quiet begins unmatched)

theorem grounded_dispatch {now : Nat} {s : State} (h : Chronicle (Grounded rules now) s.bare.journal) {keys : List Key}
    {rule : Option Nat} {instant : Nat}
    (right : Grounded rules now s.bare.journal (.dispatched (s.serial + 1) keys rule instant s.flags)) :
    Chronicle (Grounded rules now) (dispatch rules keys rule instant s).bare.journal := by
  rw [dispatch_journal, dispatchLines, List.append_cons]
  refine chronicle_grounded (h.snoc right) fun l hl => ?_
  rcases List.mem_append.1 hl with hl | hl
  · obtain ⟨d, -, rfl | rfl⟩ := endings_mem hl <;> exact ⟨rfl, rfl⟩
  · obtain ⟨i, rfl⟩ := beginLines_mem rules hl
    exact ⟨rfl, rfl⟩

theorem Reachable.grounded_finish {x : Session} (hx : Reachable rules x)
    (h : Chronicle (Grounded rules x.state.now) x.state.bare.journal) {b : Buffer} {i : Nat}
    (held : x.state.buffer = some b) (first : complete? rules b = some i)
    (ready : isWaiting rules b i = false ∨ b.deadline.instant ≤ x.state.now) :
    Chronicle (Grounded rules x.state.now) (finish rules b i x.state).bare.journal := by
  obtain ⟨m, placed⟩ : ∃ m, rules[i]? = some m := by
    have together := hx.finish_together held first
    cases hm : rules[i]? with
    | none =>
      rw [hm] at together
      cases together
    | some m => exact ⟨m, rfl⟩
  have goes : b.GoesTo rules x.state.now x.state.bare.journal i := ⟨hx.wellFormed held, first, ready⟩
  have handed : handOver rules b i x.state = { x.state with buffer := none }.note (.matched i m.trigger b) := by
    rw [handOver, placed]
  have journal : (handOver rules b i x.state).bare.journal = x.state.bare.journal ++ [.matched i m.trigger b] := by
    rw [handed, State.bare_note rfl]
    rfl
  rw [finish_eq]
  refine grounded_dispatch ?_ fun _ => ⟨m, b, placed, ?_, rfl⟩
  · rw [journal]
    exact h.snoc goes
  · rw [journal, List.getLast?_concat]

theorem Reachable.grounded {x : Session} (hx : Reachable rules x) :
    Chronicle (Grounded rules x.state.now) x.state.bare.journal := by
  induction hx with
  | start => exact chronicle_nil _
  | move hx step ih =>
    rw [step.now]
    cases step with
    | fire first =>
      rw [fire_journal]
      refine chronicle_grounded ih fun l hl => ?_
      obtain rfl | ⟨p, -, rfl | rfl⟩ | ⟨p, i, -, -, rfl⟩ := fireLines_mem hl <;> exact ⟨rfl, rfl⟩
    | @dispatch k instant later simultaneous free oldest once single =>
      refine grounded_dispatch ih ?_
      cases found : findRule rules _ k simultaneous with
      | none => trivial
      | some i =>
        intro together
        rw [single i found] at together
        cases together
    | @holdBack k instant i free oldest found together =>
      rw [startBuffer_journal]
      exact ih.snoc trivial
    | join held oldest narrowed some_left => exact ih
    | close held due => exact grounded_note ih rfl rfl rfl
    | finish held idle first ready => exact hx.grounded_finish ih held first ready
    | flush held => exact grounded_note ih rfl rfl rfl
  | @tick x _ _ instant ih =>
    obtain ⟨more, ticked, late⟩ := x.state.bare_tick instant
    have later : Chronicle (Grounded rules (max x.state.now instant)) x.state.bare.journal :=
      fun before l after he => (ih before l after he).later (Nat.le_max_left _ _)
    rw [ticked, State.tick_clock]
    refine chronicle_grounded later fun l hm => ?_
    obtain ⟨t, n, rfl⟩ := late l hm
    exact ⟨rfl, rfl⟩
  | accept _ _ _ ih => exact grounded_note ih rfl rfl rfl
  | refuse _ _ _ ih => exact grounded_note ih rfl rfl rfl
  | @release x _ _ k _ ih =>
    rw [release_journal, (release_frame rules k x.state.now x.state).2]
    refine chronicle_grounded ih fun l hl => ?_
    obtain rfl | ⟨p, -, rfl | ⟨i, -, ⟨-, rfl⟩ | rfl⟩⟩ := releaseLines_mem rules hl <;> exact ⟨rfl, rfl⟩
  | take _ _ ih => exact ih

theorem Buffer.GoesTo.candidate {now : Nat} {journal : List Incident} {b : Buffer} {i : Nat}
    (h : b.GoesTo rules now journal i) : i ∈ b.candidates := List.mem_of_find?_eq_some h.first

theorem Buffer.GoesTo.complete {now : Nat} {journal : List Incident} {b : Buffer} {i : Nat}
    (h : b.GoesTo rules now journal i) : isComplete rules b i = true := List.find?_some h.first

theorem Buffer.GoesTo.together {now : Nat} {journal : List Incident} {b : Buffer} {i : Nat}
    (h : b.GoesTo rules now journal i) : rules[i]?.any (·.trigger.isTogether) = true := by
  obtain ⟨m, placed, together, -⟩ := h.wellFormed.accepted h.candidate
  rw [placed, Option.any_some, together]

/-- A press of a simultaneous rule, or one that a buffer was matched for, begins with the keys of a buffer that goes
to it. -/
theorem together_from_buffer {inputs : List Input} {before after : List Incident} {press i instant : Nat}
    {keys : List Key} {flags : List Flag}
    (dispatched : (run rules inputs).bare.journal = before ++ .dispatched press keys (some i) instant flags :: after)
    (from_buffer : rules[i]?.any (·.trigger.isTogether) = true ∨ ∃ t b, before.getLast? = some (.matched i t b)) :
    ∃ m b, rules[i]? = some m ∧ before.getLast? = some (.matched i m.trigger b) ∧ keys = b.names ∧
      b.GoesTo rules (run rules inputs).now before i := by
  have h := (reachable_session rules inputs).1.grounded
  rw [session_state] at h
  have matched : ∀ {t b}, before.getLast? = some (.matched i t b) →
      b.GoesTo rules (run rules inputs).now before i := by
    intro t b last
    obtain ⟨start, rfl⟩ := List.getLast?_eq_some_iff.1 last
    rw [List.append_assoc] at dispatched
    have goes : b.GoesTo rules (run rules inputs).now start i := h _ _ _ dispatched
    refine { goes with wellFormed := goes.wellFormed.asides fun l hl => ?_ }
    rw [List.mem_singleton.1 hl]
    exact ⟨rfl, rfl⟩
  have together : rules[i]?.any (·.trigger.isTogether) = true :=
    from_buffer.elim id fun ⟨t, b, last⟩ => (matched last).together
  obtain ⟨m, b, placed, last, names⟩ := h _ _ _ dispatched together
  exact ⟨m, b, placed, last, names, matched last⟩

/-! ## Complete candidates -/

/-- Different keys that a trigger accepts, as many as it wants, are just the keys of the trigger. -/
theorem Trigger.perm_of_accepts {t : Trigger} {ks : List Key} (h : t.accepts ks = true) (distinct : ks.Nodup)
    (size : t.keys.length = ks.length) : ks.Perm t.keys :=
  (List.subperm_of_subset distinct fun _ hk => Trigger.mem_of_accepts h hk).perm_of_length_le (Nat.le_of_eq size)

theorem Buffer.isComplete_iff {b : Buffer} {i : Nat} :
    isComplete rules b i = true ↔ (triggerKeys rules i).length = b.names.length := by
  rw [isComplete, beq_iff_eq, Buffer.names, List.length_map]

theorem Buffer.GoesTo.perm {now : Nat} {journal : List Incident} {b : Buffer} {i : Nat}
    (h : b.GoesTo rules now journal i) {m : Manipulator} (placed : rules[i]? = some m) :
    b.names.Perm m.trigger.keys := by
  obtain ⟨n, placed', -, accepts⟩ := h.wellFormed.accepted h.candidate
  obtain rfl := Option.some.inj (placed.symm.trans placed')
  refine Trigger.perm_of_accepts accepts h.wellFormed.distinct ?_
  rw [← triggerKeys_eq placed]
  exact Buffer.isComplete_iff.1 h.complete

theorem complete?_least {b : Buffer} (sorted : b.candidates.Pairwise (· < ·)) {i : Nat}
    (first : complete? rules b = some i) {j : Nat} (candidate : j ∈ b.candidates)
    (complete : isComplete rules b j = true) : i ≤ j := by
  obtain ⟨-, front, back, split, incomplete⟩ := List.find?_eq_some_iff_append.1 first
  rw [split] at candidate sorted
  rcases List.mem_append.1 candidate with early | late
  · have := incomplete j early
    rw [complete] at this
    cases this
  · rcases List.mem_cons.1 late with rfl | late
    · exact Nat.le_refl j
    · exact Nat.le_of_lt (List.rel_of_pairwise_cons (List.pairwise_append.1 sorted).2.1 late)

theorem isWaiting_iff {b : Buffer} {i : Nat} :
    isWaiting rules b i = true ↔ ∃ j ∈ b.candidates, j < i ∧ isComplete rules b j = false := by
  simp [isWaiting, List.any_eq_true]

/-- Before its window is over a buffer goes to the first candidate of all. -/
theorem Buffer.GoesTo.first_of_all {now : Nat} {journal : List Incident} {b : Buffer} {i : Nat}
    (h : b.GoesTo rules now journal i) : b.deadline.instant ≤ now ∨ ∀ j ∈ b.candidates, i ≤ j := by
  refine h.ready.symm.imp_right fun ready j candidate => ?_
  by_contra before
  have waits : isWaiting rules b i = true := isWaiting_iff.2 ⟨j, candidate, Nat.not_le.1 before,
    Bool.eq_false_iff.2 fun complete => before (complete?_least h.wellFormed.sorted h.first candidate complete)⟩
  rw [ready] at waits
  cases waits

/-! ## Between inputs -/

variable (rules) in
/-- The complete candidate of a buffer waits for one before it. -/
def Patient (s : State) : Prop :=
  ∀ b i, s.buffer = some b → complete? rules b = some i → isWaiting rules b i = true

theorem Patient.of_free {s : State} (free : s.buffer = none) : Patient rules s := fun b i held _ => by
  rw [free] at held
  cases held

theorem Patient.of_same {s t : State} (h : Patient rules s) (same : t.buffer = s.buffer) : Patient rules t :=
  fun b i held first => h b i (same ▸ held) first

theorem patient_tryFinish {b : Buffer} {s : State} (held : s.buffer = some b) :
    Patient rules (tryFinish rules b s) := by
  unfold tryFinish
  split
  · rename_i i first
    split
    · rename_i waits
      intro c j held' first'
      obtain rfl := Option.some.inj (held.symm.trans held')
      obtain rfl := Option.some.inj (first.symm.trans first')
      exact waits
    · exact .of_free (finish_frame rules b i s).1
  · rename_i incomplete
    intro c j held' first'
    obtain rfl := Option.some.inj (held.symm.trans held')
    rw [incomplete] at first'
    cases first'

section
variable (two : ∀ m ∈ rules, m.trigger.isTogether = true → 2 ≤ m.trigger.keys.length)
include two

/-- Nothing is complete at one key if simultaneous triggers want two. -/
theorem patient_startBuffer (k : Key) (instant : Nat) (s : State) : Patient rules (startBuffer rules k instant s) := by
  intro b i held first
  obtain rfl := Option.some.inj held
  rw [complete_one rfl fun j hj => ?_] at first
  · cases first
  · obtain ⟨m, placed, -, opens⟩ := mem_openCandidates.1 hj
    rw [← Trigger.accepts_one] at opens
    rw [triggerKeys_eq placed]
    exact two m (List.mem_of_getElem? placed) (Trigger.together_of_accepts opens)

theorem patient_press {s : State} (free : s.buffer = none) (k : Key) (instant : Nat) :
    Patient rules (press rules k instant true s) := by
  have dispatched : ∀ rule, Patient rules (dispatch rules [k] rule instant s) := fun rule =>
    .of_free ((dispatch_frame rules _ _ _ _).1.trans free)
  unfold press
  split
  · exact dispatched none
  · split
    · exact patient_startBuffer two k instant s
    · exact dispatched _

theorem patient_extend {b : Buffer} {s : State} (held : s.buffer = some b) (k : Key) (instant : Nat) :
    Patient rules (extend rules b k instant s) := by
  have flushed : (flush rules b s).buffer = none := (moves_flush rules (x := { state := s }) held).2
  unfold extend
  simp only
  split
  · exact patient_press two flushed k instant
  · exact patient_tryFinish rfl

theorem patient_accept (k : Key) (s : State) : Patient rules (accept rules k s) := by
  cases held : s.buffer with
  | none =>
    have free : (s.note (.accepted k s.now)).buffer = none := held
    rw [accept_free held]
    exact patient_press two free k _
  | some b =>
    have held' : (s.note (.accepted k s.now)).buffer = some b := held
    rw [accept_held held]
    exact patient_extend two held' k _

end

variable (rules) in
/-- While time passes a buffer stays as it is, unless its window closes. -/
theorem fireDue_buffer (instant : Nat) (s : State) :
    (fireDue rules instant s).buffer = none ∨ (fireDue rules instant s).buffer = s.buffer := by
  cases held : s.buffer with
  | none =>
    rw [fireDue_free held]
    exact .inl ((settle_buffer rules _ _).trans held)
  | some b =>
    rcases Nat.lt_or_ge instant b.deadline.instant with early | due
    · rw [fireDue_open held early]
      exact .inr ((settle_buffer rules _ _).trans held)
    · rw [fireDue_closes held due]
      exact .inl ((settle_buffer rules _ _).trans (closeWindow_buffer ((settle_buffer rules _ _).trans held)))

theorem Patient.advanceTo {s : State} (h : Patient rules s) (instant : Nat) :
    Patient rules (advanceTo rules instant s) := by
  rcases fireDue_buffer rules (s.tick instant).now (s.tick instant) with free | same
  · exact .of_free free
  · exact h.of_same (same.trans (s.tick_buffer instant))

theorem Patient.flushHolding {s : State} (h : Patient rules s) (k : Key) : Patient rules (flushHolding rules k s) := by
  cases held : s.buffer with
  | none =>
    rw [flushHolding_free held]
    exact h
  | some b =>
    rw [flushHolding_held held]
    split
    · exact .of_free (moves_flush rules (x := { state := s }) held).2
    · exact h

/-- A buffer that is left after an input has a candidate that waits before the first complete one. -/
theorem run_patient (two : ∀ m ∈ rules, m.trigger.isTogether = true → 2 ≤ m.trigger.keys.length)
    (inputs : List Input) : Patient rules (run rules inputs) := by
  induction inputs using List.reverseRecOn with
  | nil => exact .of_free rfl
  | append_singleton inputs i ih =>
    rw [run_append]
    cases i with
    | down k instant =>
      simp only [step, keyDown]
      split
      · exact (ih.advanceTo instant).of_same rfl
      · exact patient_accept two k _
    | up k instant => exact ((ih.advanceTo instant).flushHolding k).of_same (release_frame rules _ _ _).1
    | advance instant => exact ih.advanceTo instant
    | take => exact ih

/-! ## Resolution -/

variable (rules) in
/-- After these lines a press of the rule begins with the keys of a buffer, which are just the keys of its trigger. It
is the least complete candidate, and unless the window is over by this time the least of all. -/
structure Buffer.Resolves (now : Nat) (journal : List Incident) (keys : List Key) (i : Nat) (m : Manipulator)
    (b : Buffer) : Prop where
  placed : rules[i]? = some m
  matched : journal.getLast? = some (.matched i m.trigger b)
  wellFormed : b.WellFormed rules journal
  names : keys = b.names
  all_keys : keys.Perm m.trigger.keys
  candidate : i ∈ b.candidates
  complete : isComplete rules b i = true
  least : ∀ j ∈ b.candidates, isComplete rules b j = true → i ≤ j
  ready : b.deadline.instant ≤ now ∨ ∀ j ∈ b.candidates, i ≤ j

theorem Buffer.GoesTo.resolves {now : Nat} {journal : List Incident} {b : Buffer} {i : Nat}
    (h : b.GoesTo rules now journal i) {m : Manipulator} (placed : rules[i]? = some m)
    (matched : journal.getLast? = some (.matched i m.trigger b)) : b.Resolves rules now journal b.names i m where
  placed := placed
  matched := matched
  wellFormed := h.wellFormed
  names := rfl
  all_keys := h.perm placed
  candidate := h.candidate
  complete := h.complete
  least _ candidate complete := complete?_least h.wellFormed.sorted h.first candidate complete
  ready := h.first_of_all

end

/-- A buffer that is held between inputs is well-formed, and if a candidate is complete one before it still waits. A
press of a simultaneous rule, or for a buffer that was matched, begins during one of the inputs with the keys of a
buffer: they are just the keys of the rule, which is the least complete candidate, and either the window is over at that
time or no candidate stands before it. The lines on sending are left out of the journal. -/
theorem buffers_resolve_in_order {r : RuleSet} (compiled : r.Compiled) (inputs : List Input) :
    (∀ b, (run r.manipulators inputs).buffer = some b →
      b.WellFormed r.manipulators (run r.manipulators inputs).bare.journal ∧
      ∀ i ∈ b.candidates, isComplete r.manipulators b i = true →
        ∃ j ∈ b.candidates, j < i ∧ isComplete r.manipulators b j = false) ∧
    ∀ before after press keys i instant flags,
      (run r.manipulators inputs).bare.journal = before ++ .dispatched press keys (some i) instant flags :: after →
      r.manipulators[i]?.any (·.trigger.isTogether) = true ∨ (∃ t b, before.getLast? = some (.matched i t b)) →
      ∃ (m : Manipulator) (b : Buffer) (done : List Input) (input : Input) (later : List Input),
        inputs = done ++ input :: later ∧
        (run r.manipulators done).bare.journal <+: before ∧
        before.length < (run r.manipulators (done ++ [input])).bare.journal.length ∧
        b.Resolves r.manipulators (run r.manipulators (done ++ [input])).now before keys i m := by
  constructor
  · intro b held
    have hx := (reachable_session r.manipulators inputs).1
    have wellFormed := hx.wellFormed (b := b)
    rw [session_state] at wellFormed
    refine ⟨wellFormed held, fun i candidate complete => ?_⟩
    obtain ⟨least, first⟩ : ∃ l, complete? r.manipulators b = some l :=
      Option.isSome_iff_exists.1 (List.find?_isSome.2 ⟨i, candidate, complete⟩)
    have two : ∀ m ∈ r.manipulators, m.trigger.isTogether = true → 2 ≤ m.trigger.keys.length := fun m hm =>
      (compiled.manipulator m hm).two_keys
    obtain ⟨j, hj, before, incomplete⟩ := isWaiting_iff.1 (run_patient two inputs b least held first)
    exact ⟨j, hj, Nat.lt_of_lt_of_le before (complete?_least (wellFormed held).sorted first candidate complete),
      incomplete⟩
  · intro before after press keys i instant flags dispatched from_buffer
    obtain ⟨done, input, later, split, old, more, new⟩ := written_during dispatched
    obtain ⟨m, b, placed, last, rfl, goes⟩ := together_from_buffer new from_buffer
    refine ⟨m, b, done, input, later, split, old, ?_, goes.resolves placed last⟩
    rw [new, List.length_append, List.length_cons]
    omega

theorem largerFirstSet_compiled : largerFirstSet.Compiled where
  assembled := rfl
  fragments g hg f hf := by
    obtain rfl := List.mem_singleton.1 hg
    obtain ⟨c, hc, rfl⟩ := List.mem_map.1 hf
    refine ⟨.chord c, ?_⟩
    simp only [largerFirst, List.mem_cons, List.not_mem_nil, or_false] at hc
    rcases hc with rfl | rfl <;> rfl

def resolvedJournal : List Incident :=
  (run largerFirstSet.manipulators (smallerPressed ++ [.advance 50])).bare.journal

theorem resolvedJournal_eq : (run largerFirstSet.manipulators (smallerPressed ++ [.advance 50])).bare.journal =
    resolvedJournal.take 5 ++ .dispatched 2 [keyA, keyB] (some 1) 10 [] :: resolvedJournal.drop 6 := rfl

/-- The smaller of two chords is complete and waits for the larger one, which is declared first. It gets the keys when
the window is over. -/
theorem buffers_resolve_in_order_larger :
    (smallerBuffer.WellFormed largerFirstSet.manipulators
        (run largerFirstSet.manipulators smallerPressed).bare.journal ∧
      ∃ j ∈ smallerBuffer.candidates, j < 1 ∧ isComplete largerFirstSet.manipulators smallerBuffer j = false) ∧
    ∃ (m : Manipulator) (b : Buffer) (done : List Input) (input : Input) (later : List Input),
      smallerPressed ++ [.advance 50] = done ++ input :: later ∧
      (run largerFirstSet.manipulators done).bare.journal <+: resolvedJournal.take 5 ∧
      (resolvedJournal.take 5).length < (run largerFirstSet.manipulators (done ++ [input])).bare.journal.length ∧
      b.Resolves largerFirstSet.manipulators (run largerFirstSet.manipulators (done ++ [input])).now
        (resolvedJournal.take 5) [keyA, keyB] 1 m := by
  constructor
  · obtain ⟨wellFormed, waits⟩ :=
      (buffers_resolve_in_order largerFirstSet_compiled smallerPressed).1 smallerBuffer smallerPressed_buffer
    exact ⟨wellFormed, waits 1 (by decide) rfl⟩
  · have together : largerFirstSet.manipulators[1]?.any (·.trigger.isTogether) = true := rfl
    have resolves := (buffers_resolve_in_order largerFirstSet_compiled (smallerPressed ++ [.advance 50])).2
      (resolvedJournal.take 5) (resolvedJournal.drop 6) 2 [keyA, keyB] 1 10 []
    exact resolves resolvedJournal_eq (.inl together)

end KeyRules.Engine
