import KeyRules.Proofs.Compiled
import KeyRules.Proofs.Engine.Chronicle

/-!
# First match

A key that goes down alone is dispatched to the first rule that reacts to it. Keys from a buffer are dispatched to a
candidate of the key that opened the buffer. No earlier rule wanted that key alone when the buffer was opened, but
nobody asks the rules for the keys that joined it (`first_match_but_joined`).
-/

namespace KeyRules.Engine

/-- A key that opened a buffer, with the candidates and the flags of that moment. -/
structure Opening where
  key : Key
  candidates : List Nat
  flags : List Flag
  deriving DecidableEq, Repr

def Incident.opens? : Incident → Option Opening
  | buffered key candidates flags => some ⟨key, candidates, flags⟩
  | _ => none

def openings (journal : List Incident) : List Opening := journal.filterMap Incident.opens?

theorem openings_bare (journal : List Incident) :
    openings (journal.filter fun i => !i.isSending) = openings journal := by
  refine filterMap_bare (fun i hi => ?_) journal
  cases i <;> first | rfl | cases hi

theorem last_opening {journal : List Incident} {o : Opening} (h : (openings journal).getLast? = some o) :
    ∃ earlier later, journal = earlier ++ .buffered o.key o.candidates o.flags :: later ∧
      ∀ key candidates flags, .buffered key candidates flags ∉ later := by
  obtain ⟨earlier, line, later, rfl, hl, quiet⟩ := filterMap_getLast h
  cases line with
  | buffered key candidates flags =>
    obtain rfl := Option.some.inj hl
    refine ⟨earlier, later, rfl, fun key candidates flags hm => ?_⟩
    have hn := List.filterMap_eq_nil_iff.1 quiet _ hm
    cases hn
  | _ => cases hl

section
variable {rules : List Manipulator}

variable (rules) in
/-- A rule that wanted the key alone when the buffer was opened stands after one of the candidates. -/
def Opening.Rightful (o : Opening) : Prop :=
  ∀ j m anyModifiers, rules[j]? = some m → m.trigger = .single o.key anyModifiers →
    m.gates.all (Gate.isOpen o.flags) = true → ∃ c ∈ o.candidates, c < j

variable (rules) in
/-- A rule `i` that gets keys has no rule before it that wants one of them alone, unless the keys come from a buffer.
Then the key is another one than the key that opened the buffer, or the rule was gated or preceded then. -/
def Preceding (before : List Incident) : Incident → Prop
  | .dispatched _ keys (some i) _ flags =>
    ∀ j m k anyModifiers, j < i → rules[j]? = some m → m.trigger = .single k anyModifiers →
      m.gates.all (Gate.isOpen flags) = true → k ∈ keys →
      rules[i]?.any (·.trigger.isTogether) = true ∧
      ∃ o, (openings before).getLast? = some o ∧ i ∈ o.candidates ∧ keys.head? = some o.key ∧
        (k = o.key → m.gates.all (Gate.isOpen o.flags) = true → ∃ c ∈ o.candidates, c < j)
  | _ => True

variable (rules) in
/-- The buffer was opened by the last opening: its first key and its candidates are from there. -/
structure Opened (journal : List Incident) (b : Buffer) (o : Opening) : Prop where
  last : (openings journal).getLast? = some o
  first : b.keys.head?.map (·.1) = some o.key
  candidates : b.candidates ⊆ o.candidates
  together : ∀ i ∈ o.candidates, rules[i]?.any (·.trigger.isTogether) = true
  rightful : o.Rightful rules

variable (rules) in
structure Preceded (s : State) : Prop where
  lines : Chronicle (Preceding rules) s.journal
  opened : ∀ b, s.buffer = some b → ∃ o, Opened rules s.journal b o

/-- A line that neither begins a press nor opens a buffer. -/
def Incident.isAside (i : Incident) : Prop := i.begins? = none ∧ i.opens? = none

theorem preceding_aside {l : Incident} (h : l.isAside) (before : List Incident) : Preceding rules before l := by
  cases l with
  | dispatched press keys rule instant flags => cases h.1
  | _ => trivial

theorem chronicle_asides {j more : List Incident} (h : Chronicle (Preceding rules) j)
    (asides : ∀ l ∈ more, l.isAside) : Chronicle (Preceding rules) (j ++ more) := by
  refine h.append fun before l after he => preceding_aside (asides l ?_) _
  rw [he]
  exact List.mem_append_right _ List.mem_cons_self

theorem openings_asides {j more : List Incident} (asides : ∀ l ∈ more, l.isAside) :
    openings (j ++ more) = openings j := by
  have hn : openings more = [] := List.filterMap_eq_nil_iff.2 fun l hl => (asides l hl).2
  unfold openings at hn ⊢
  rw [List.filterMap_append, hn, List.append_nil]

theorem Preceded.write {s t : State} (h : Preceded rules s) (more : List Incident)
    (journal : t.journal = s.journal ++ more) (asides : ∀ l ∈ more, l.isAside) (buffer : t.buffer = s.buffer) :
    Preceded rules t where
  lines := by
    rw [journal]
    exact chronicle_asides h.lines asides
  opened b hb := by
    obtain ⟨o, ho⟩ := h.opened b (buffer ▸ hb)
    refine ⟨o, { ho with last := ?_ }⟩
    rw [journal, openings_asides asides]
    exact ho.last

theorem Preceded.note {s : State} (h : Preceded rules s.bare) {l : Incident} (hs : l.isSending = false)
    (aside : l.isAside) : Preceded rules (s.note l).bare := by
  rw [State.bare_note hs]
  refine h.write [l] rfl (fun j hj => ?_) rfl
  rw [List.mem_singleton.1 hj]
  exact aside

variable (rules) in
theorem releaseLines_asides (k : Key) (instant : Nat) (s : State) :
    ∀ l ∈ releaseLines rules k instant s, l.isAside := by
  intro l hl
  obtain rfl | ⟨p, -, rfl | ⟨i, -, ⟨-, rfl⟩ | rfl⟩⟩ := releaseLines_mem rules hl <;> exact ⟨rfl, rfl⟩

theorem fireLines_asides (d : Deadline) (timer : Timer) : ∀ l ∈ fireLines d timer, l.isAside := by
  intro l hl
  obtain rfl | ⟨p, -, rfl | rfl⟩ | ⟨p, i, -, -, rfl⟩ := fireLines_mem hl <;> exact ⟨rfl, rfl⟩

variable (rules) in
/-- The lines of a press that begins, but for the first one. -/
theorem dispatchLines_asides (keys : List Key) (rule : Option Nat) (s : State) :
    ∀ l ∈ s.running.map (ending keys) ++ beginLines rules (s.serial + 1) rule, l.isAside := by
  intro l hl
  rcases List.mem_append.1 hl with hl | hl
  · obtain ⟨d, -, rfl | rfl⟩ := endings_mem hl <;> exact ⟨rfl, rfl⟩
  · obtain ⟨i, rfl⟩ := beginLines_mem rules hl
    exact ⟨rfl, rfl⟩

theorem Preceded.release {s : State} (h : Preceded rules s.bare) (k : Key) (instant : Nat) :
    Preceded rules (release rules k instant s).bare := by
  obtain ⟨ps, cs, n, he, -⟩ := release_effect rules k instant s
  rw [he]
  exact h.write (releaseLines rules k instant s) rfl (releaseLines_asides rules k instant s) rfl

theorem Preceded.fire {s : State} (h : Preceded rules s.bare) (d : Deadline) (timer : Timer) :
    Preceded rules (fire rules s d timer).bare := by
  obtain ⟨ps, cs, he, -⟩ := fire_effect rules s d timer
  rw [he]
  exact h.write (fireLines d timer) rfl (fireLines_asides d timer) rfl

/-- A press begins while no buffer is open, and its rule is the right one. -/
theorem Preceded.dispatch {s : State} (h : Preceded rules s.bare) (free : s.buffer = none) {keys : List Key}
    {rule : Option Nat} {instant : Nat}
    (right : Preceding rules s.bare.journal (.dispatched (s.serial + 1) keys rule instant s.flags)) :
    Preceded rules (dispatch rules keys rule instant s).bare := by
  obtain ⟨p, cs, n, he, -⟩ := dispatch_effect rules keys rule instant s
  rw [he]
  refine ⟨?_, fun b hb => ?_⟩
  · show Chronicle (Preceding rules) (s.bare.journal ++ dispatchLines rules keys rule instant s)
    unfold dispatchLines
    rw [List.append_cons]
    exact chronicle_asides (h.lines.snoc right) (dispatchLines_asides rules keys rule s)
  · have hb : s.buffer = some b := hb
    rw [free] at hb
    cases hb

theorem reactsTo_single {s : State} {m : Manipulator} {k : Key} {anyModifiers : Bool}
    (trigger : m.trigger = .single k anyModifiers) (active : m.gates.all (Gate.isOpen s.flags) = true)
    (simultaneous : Bool) : reactsTo s k simultaneous m = true := by
  have hg : s.gatesOpen m.gates = true := active
  simp [reactsTo, hg, trigger]

theorem findRule_first {s : State} {k : Key} {simultaneous : Bool} {i : Nat}
    (found : findRule rules s k simultaneous = some i) {j : Nat} {m : Manipulator} (placed : rules[j]? = some m)
    (reacts : reactsTo s k simultaneous m = true) : i ≤ j := by
  obtain ⟨hi, -, before⟩ := List.findIdx?_eq_some_iff_getElem.1 found
  by_contra hj
  have hr := before j (by omega)
  have hm : rules[j] = m := Option.some.inj ((List.getElem?_eq_getElem (by omega)).symm.trans placed)
  rw [hm, reacts] at hr
  exact hr rfl

/-- A key that goes down alone goes to the first rule for it. -/
theorem preceding_found {s : State} {k : Key} {simultaneous : Bool} (before : List Incident) (press instant : Nat) :
    Preceding rules before (.dispatched press [k] (findRule rules s k simultaneous) instant s.flags) := by
  cases hf : findRule rules s k simultaneous with
  | none => trivial
  | some i =>
    intro j m l anyModifiers earlier placed trigger active hl
    obtain rfl := List.mem_singleton.1 hl
    have := findRule_first hf placed (reactsTo_single trigger active simultaneous)
    omega

theorem mem_places {p : Manipulator → Bool} {i : Nat} :
    i ∈ ((List.range rules.length).filter fun i => rules[i]?.any p) ↔ ∃ m, rules[i]? = some m ∧ p m = true := by
  rw [List.mem_filter, List.mem_range, Option.any_eq_true]
  exact ⟨And.right, fun ⟨m, placed, hp⟩ => ⟨(List.getElem?_eq_some_iff.1 placed).1, m, placed, hp⟩⟩

theorem mem_openCandidates {s : State} {k : Key} {i : Nat} :
    i ∈ openCandidates rules s k ↔
      ∃ m, rules[i]? = some m ∧ s.gatesOpen m.gates = true ∧ m.trigger.opensWith k = true := by
  rw [openCandidates, mem_places]
  simp only [Bool.and_eq_true]

theorem candidate_together {s : State} {k : Key} {i : Nat} (h : i ∈ openCandidates rules s k) :
    rules[i]?.any (·.trigger.isTogether) = true := by
  obtain ⟨m, hm, -, opens⟩ := mem_openCandidates.1 h
  rw [hm, Option.any_some]
  cases ht : m.trigger with
  | single j anyModifiers =>
    rw [ht] at opens
    cases opens
  | together ks order window => rfl

/-- A simultaneous rule reacts to the keys that it may open with. -/
theorem reactsTo_together {s : State} {m : Manipulator} {k : Key} (together : m.trigger.isTogether = true) :
    reactsTo s k true m = true ↔ s.gatesOpen m.gates = true ∧ m.trigger.opensWith k = true := by
  unfold reactsTo
  cases ht : m.trigger with
  | single j anyModifiers =>
    rw [ht] at together
    cases together
  | together ks order window => simp

/-- If the first rule that reacts is simultaneous, it is the first candidate. -/
theorem openCandidates_head {s : State} {k : Key} {i : Nat} (found : findRule rules s k true = some i)
    (together : rules[i]?.any (·.trigger.isTogether) = true) : (openCandidates rules s k).head? = some i := by
  obtain ⟨hi, reacts, -⟩ := List.findIdx?_eq_some_iff_getElem.1 found
  have hm := List.getElem?_eq_getElem hi
  rw [hm, Option.any_some] at together
  have candidate : i ∈ openCandidates rules s k :=
    mem_openCandidates.2 ⟨_, hm, (reactsTo_together together).1 reacts⟩
  have head : ((openCandidates rules s k).head?) =
      (List.range rules.length).find? fun i => rules[i]?.any fun m => s.gatesOpen m.gates && m.trigger.opensWith k :=
    List.head?_filter
  rw [head, List.find?_range_eq_some]
  refine ⟨(List.mem_filter.1 candidate).2, List.mem_range.2 hi, fun c hc => ?_⟩
  by_contra hn
  have hcand : c ∈ openCandidates rules s k :=
    List.mem_filter.2 ⟨List.mem_range.2 (by omega), by simpa using hn⟩
  have ht := candidate_together hcand
  obtain ⟨m, hm, opens⟩ := mem_openCandidates.1 hcand
  rw [hm, Option.any_some] at ht
  have := findRule_first found hm ((reactsTo_together ht).2 opens)
  omega

theorem startBuffer_journal (k : Key) (instant : Nat) (s : State) :
    (startBuffer rules k instant s).bare.journal =
      s.bare.journal ++ [.buffered k (openCandidates rules s k) s.flags] := by
  simp [startBuffer, State.note, State.bare, Incident.isSending]

theorem Preceded.holdBack {s : State} (h : Preceded rules s.bare) {k : Key} {instant i : Nat}
    (found : findRule rules s k true = some i) (together : rules[i]?.any (·.trigger.isTogether) = true) :
    Preceded rules (startBuffer rules k instant s).bare := by
  have hj : (startBuffer rules k instant s).bare.journal = _ := startBuffer_journal k instant s
  have candidate : i ∈ openCandidates rules s k :=
    List.mem_of_mem_head? (Option.mem_def.2 (openCandidates_head found together))
  refine ⟨?_, fun b hb => ⟨⟨k, openCandidates rules s k, s.flags⟩, ?_⟩⟩
  · rw [hj]
    exact h.lines.snoc trivial
  · obtain rfl := Option.some.inj hb
    refine ⟨?_, rfl, List.Subset.refl _, fun c hc => candidate_together hc,
      fun j m anyModifiers hm trigger active => ⟨i, candidate, ?_⟩⟩
    · rw [hj]
      simp [openings, List.filterMap_append, Incident.opens?]
    · have hle := findRule_first found hm (reactsTo_single trigger active true)
      refine Nat.lt_of_le_of_ne hle ?_
      rintro rfl
      rw [hm, Option.any_some, trigger] at together
      cases together

theorem Preceded.finish {s : State} (h : Preceded rules s.bare) {b : Buffer} {i : Nat} (held : s.buffer = some b)
    (first : complete? rules b = some i) : Preceded rules (finish rules b i s).bare := by
  obtain ⟨o, ho⟩ := h.opened b held
  obtain ⟨more, hj, hl⟩ := bare_handOver rules b i s
  have asides : ∀ l ∈ more, l.isAside := by
    intro l hm
    obtain ⟨t, rfl⟩ := hl l hm
    exact ⟨rfl, rfl⟩
  have ht : Preceded rules (handOver rules b i s).bare := by
    rw [hj]
    exact ⟨chronicle_asides h.lines asides, fun c hc => by cases hc⟩
  rw [finish_eq]
  refine ht.dispatch (congrArg State.buffer hj) fun j m k anyModifiers earlier placed trigger active hk => ?_
  have hi : i ∈ o.candidates := ho.candidates (List.mem_of_find?_eq_some first)
  refine ⟨ho.together i hi, o, ?_, hi, ?_, fun he was => ho.rightful j m anyModifiers placed (he ▸ trigger) was⟩
  · rw [hj]
    exact (congrArg List.getLast? (openings_asides asides)).trans ho.last
  · rw [List.head?_map]
    exact ho.first

theorem Preceded.move {x y : Session} (h : Preceded rules x.state.bare) (step : Move rules x y) :
    Preceded rules y.state.bare := by
  cases step with
  | fire first => exact h.fire _ _
  | dispatch simultaneous free oldest once single => exact h.dispatch free (preceding_found _ _ _)
  | holdBack free oldest found together => exact h.holdBack found together
  | @join b k instant candidates held oldest narrowed some_left =>
    refine ⟨h.lines, fun c hc => ?_⟩
    obtain rfl := Option.some.inj hc
    obtain ⟨o, ho⟩ := h.opened b held
    refine ⟨o, { ho with first := ?_, candidates := ?_ }⟩
    · have hf := ho.first
      show (b.keys ++ [(k, instant)]).head?.map (·.1) = some o.key
      cases hk : b.keys with
      | nil =>
        rw [hk] at hf
        cases hf
      | cons l ls =>
        rw [hk] at hf
        exact hf
    · rw [narrowed]
      exact fun i hi => ho.candidates (List.mem_filter.1 hi).1
  | close held due => exact h.note rfl ⟨rfl, rfl⟩
  | finish held idle first ready => exact h.finish held first
  | @flush b held =>
    have hn : Preceded rules (x.state.note (.flushed b.keys.length)).bare := h.note rfl ⟨rfl, rfl⟩
    exact ⟨hn.lines, fun c hc => by cases hc⟩

theorem Reachable.preceded {x : Session} (h : Reachable rules x) : Preceded rules x.state.bare := by
  induction h with
  | start => exact ⟨chronicle_nil _, fun b hb => by cases hb⟩
  | move _ step ih => exact ih.move step
  | @tick x _ _ instant ih =>
    obtain ⟨more, ht, hl⟩ := x.state.bare_tick instant
    rw [ht]
    refine ih.write more rfl (fun l hm => ?_) rfl
    obtain ⟨t, n, rfl⟩ := hl l hm
    exact ⟨rfl, rfl⟩
  | accept _ _ _ ih => exact ih.note rfl ⟨rfl, rfl⟩
  | refuse _ _ _ ih => exact ih.note rfl ⟨rfl, rfl⟩
  | release _ _ _ ih => exact ih.release _ _
  | take _ _ ih => exact ih

/-! ## Rules before the one that gets a key -/

theorem Preceded.sound {s : State} (h : Preceded rules s.bare) {before after : List Incident} {line : Incident}
    (he : s.journal = before ++ line :: after) (hl : line.isSending = false) : Preceding rules before line := by
  have hp := h.lines (before.filter fun i => !i.isSending) line (after.filter fun i => !i.isSending) (by
    simp [State.bare, he, hl])
  cases line with
  | dispatched press keys rule instant flags =>
    cases rule with
    | none => trivial
    | some i =>
      unfold Preceding at hp ⊢
      rw [openings_bare] at hp
      exact hp
  | _ => trivial

/-- A rule that wants a key alone is passed over only if the key comes from a buffer for a later simultaneous rule.
It is not the key that opened the buffer, or the rule was gated then, or a rule before it was a candidate too. -/
theorem passed_over_in_buffer (inputs : List Input) {before after : List Incident} {press i instant : Nat}
    {keys : List Key} {flags : List Flag}
    (dispatched : (run rules inputs).journal = before ++ .dispatched press keys (some i) instant flags :: after)
    {j : Nat} (earlier : j < i) {m : Manipulator} (placed : rules[j]? = some m) {k : Key} {anyModifiers : Bool}
    (trigger : m.trigger = .single k anyModifiers) (active : m.gates.all (Gate.isOpen flags) = true)
    (pressed : k ∈ keys) :
    rules[i]?.any (·.trigger.isTogether) = true ∧
    ∃ start first candidates then_flags between,
      before = start ++ .buffered first candidates then_flags :: between ∧
      (∀ key others flags, .buffered key others flags ∉ between) ∧ i ∈ candidates ∧ keys.head? = some first ∧
      (k ≠ first ∨ m.gates.all (Gate.isOpen then_flags) = false ∨ ∃ c ∈ candidates, c < j) := by
  have hr := (reachable_session rules inputs).1.preceded
  rw [session_state] at hr
  have hp := hr.sound dispatched rfl
  obtain ⟨together, o, last, candidate, head, rightful⟩ := hp j m k anyModifiers earlier placed trigger active pressed
  obtain ⟨start, between, rfl, quiet⟩ := last_opening last
  refine ⟨together, start, o.key, o.candidates, o.flags, between, rfl, quiet, candidate, head, ?_⟩
  by_cases hk : k = o.key
  · by_cases hg : m.gates.all (Gate.isOpen o.flags) = true
    · exact .inr (.inr (rightful hk hg))
    · exact .inr (.inl (Bool.eq_false_iff.2 hg))
  · exact .inl hk

end

def tapHoldB : TapHold := ⟨keyB, .key keyB [], .combination .meh, 200, .tapFirst, none, none⟩

def chordAB : Chord := ⟨[keyA, keyB], .key keyC [], 50, none⟩

/-- The tap-hold key stands before the chord. -/
def tapHoldBeforeChord : List Group := [⟨"home row", [
  ⟨"tap-hold " ++ tapHoldB.text, [tapHoldB.compiled], none⟩,
  ⟨"chord " ++ chordAB.text, [chordAB.compiled], none⟩]⟩]

def joinedJournal : List Incident :=
  (run (RuleSet.manipulators ⟨tapHoldBeforeChord⟩) [.down keyA 0, .down keyB 10]).journal

theorem joinedJournal_eq : (run (RuleSet.manipulators ⟨tapHoldBeforeChord⟩) [.down keyA 0, .down keyB 10]).journal =
    joinedJournal.take 4 ++ .dispatched 2 [keyA, keyB] (some 1) 10 [] :: joinedJournal.drop 5 := rfl

/-- `b` joins `a`, and its own rule is passed over. -/
theorem passed_over_in_buffer_joined :
    joinedJournal = joinedJournal.take 4 ++ .dispatched 2 [keyA, keyB] (some 1) 10 [] :: joinedJournal.drop 5 ∧
    (RuleSet.manipulators ⟨tapHoldBeforeChord⟩)[1]?.any (·.trigger.isTogether) = true ∧
    ∃ start first candidates flags between,
      joinedJournal.take 4 = start ++ .buffered first candidates flags :: between ∧
      (∀ key others flags, .buffered key others flags ∉ between) ∧ 1 ∈ candidates ∧
      [keyA, keyB].head? = some first ∧
      (keyB ≠ first ∨ List.all [] (Gate.isOpen flags) = false ∨ ∃ c ∈ candidates, c < 0) :=
  ⟨rfl, passed_over_in_buffer _ joinedJournal_eq Nat.zero_lt_one rfl rfl rfl (by simp)⟩

/-- So the first rule that matches a key does not always get it. -/
theorem first_match_loses :
    ¬∀ (groups : List Group) (r : RuleSet) (inputs : List Input) (before after : List Incident)
      (press i instant : Nat) (keys : List Key) (flags : List Flag) (j : Nat) (m : Manipulator) (k : Key)
      (anyModifiers : Bool), RuleSet.assemble groups = .ok r →
      (run r.manipulators inputs).journal = before ++ .dispatched press keys (some i) instant flags :: after →
      j < i → r.manipulators[j]? = some m → m.trigger = .single k anyModifiers →
      m.gates.all (Gate.isOpen flags) = true → k ∉ keys := by
  intro h
  refine h tapHoldBeforeChord ⟨tapHoldBeforeChord⟩ _ _ _ 2 1 10 [keyA, keyB] [] 0 _ keyB true rfl
    joinedJournal_eq Nat.zero_lt_one rfl rfl rfl ?_
  simp

end KeyRules.Engine
