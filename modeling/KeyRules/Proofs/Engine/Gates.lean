import KeyRules.Proofs.Engine.Flags
import KeyRules.Proofs.Engine.Precedence

/-!
# Gates

A rule for a single key gets it only while its gates are open. A simultaneous rule is asked for its gates when the
first key goes into the buffer, and not again when it gets the keys: what timers and releases write in between does
not count (`gates_read_when_matched`, `gate_closed_in_buffer`).
-/

namespace KeyRules.Engine

section
variable {rules : List Manipulator}

/-! ## Lines of every run -/

variable (rules) in
/-- A property of a line and the lines before it that asks nothing of lines on the side and holds wherever a buffer
is opened or a press begins. -/
structure Kept (Q : List Incident → Incident → Prop) : Prop where
  aside : ∀ before l, Incident.isAside l → Q before l
  opening : ∀ {x : Session} {k : Key} {i : Nat}, Reachable rules x → findRule rules x.state k true = some i →
    rules[i]?.any (·.trigger.isTogether) = true →
    Q x.state.bare.journal (.buffered k (openCandidates rules x.state k) x.state.flags)
  alone : ∀ {x : Session} {k : Key} {instant : Nat} {later : List (Key × Nat)} {simultaneous : Bool},
    Reachable rules x → x.waiting = (k, instant) :: later →
    (∀ i, findRule rules x.state k simultaneous = some i → rules[i]?.any (·.trigger.isTogether) = false) →
    Q x.state.bare.journal
      (.dispatched (x.state.serial + 1) [k] (findRule rules x.state k simultaneous) instant x.state.flags)
  joined : ∀ {x : Session} {b : Buffer} {i : Nat} {lines : List Incident}, Reachable rules x →
    x.state.buffer = some b → complete? rules b = some i → (∀ l ∈ lines, ∃ t, l = .matched i t b) →
    Q (x.state.bare.journal ++ lines)
      (.dispatched (x.state.serial + 1) (b.keys.map (·.1)) (some i) (b.lastKey x.state.now) x.state.flags)

section
variable {Q : List Incident → Incident → Prop}

theorem Kept.asides (h : Kept rules Q) {j more : List Incident} (hj : Chronicle Q j)
    (asides : ∀ l ∈ more, l.isAside) : Chronicle Q (j ++ more) := by
  refine hj.append fun before l after he => h.aside _ l (asides l ?_)
  rw [he]
  exact List.mem_append_right _ List.mem_cons_self

/-- The lines of a press that begins, after its first one. -/
theorem Kept.dispatch (h : Kept rules Q) {s : State} (hj : Chronicle Q s.bare.journal) {keys : List Key}
    {rule : Option Nat} {instant : Nat}
    (first : Q s.bare.journal (.dispatched (s.serial + 1) keys rule instant s.flags)) :
    Chronicle Q (dispatch rules keys rule instant s).bare.journal := by
  rw [dispatch_journal, dispatchLines, List.append_cons]
  exact h.asides (hj.snoc first) (dispatchLines_asides rules keys rule s)

theorem Kept.move (h : Kept rules Q) {x y : Session} (hx : Reachable rules x)
    (hj : Chronicle Q x.state.bare.journal) (step : Move rules x y) : Chronicle Q y.state.bare.journal := by
  cases step with
  | fire first =>
    rw [fire_journal]
    exact h.asides hj (fireLines_asides _ _)
  | dispatch simultaneous free oldest once single => exact h.dispatch hj (h.alone hx oldest single)
  | @holdBack k instant i free oldest found together =>
    rw [startBuffer_journal]
    exact hj.snoc (h.opening hx found together)
  | join held oldest narrowed some_left => exact hj
  | close held due =>
    rw [State.bare_note rfl]
    exact hj.snoc (h.aside _ _ ⟨rfl, rfl⟩)
  | @finish b i held idle first ready =>
    obtain ⟨lines, hs, hl⟩ := handOver_eq rules b i x.state
    have ht : (handOver rules b i x.state).bare.journal = x.state.bare.journal ++ lines := by
      rw [hs, State.bare_noteAll fun l hm => by obtain ⟨t, rfl⟩ := hl l hm; rfl]
      rfl
    have hf := h.joined hx held first hl
    have hk : Chronicle Q (x.state.bare.journal ++ lines) := h.asides hj fun l hm => by
      obtain ⟨t, rfl⟩ := hl l hm
      exact ⟨rfl, rfl⟩
    rw [← ht] at hf hk
    rw [finish_eq]
    refine h.dispatch hk ?_
    rw [hs] at hf ⊢
    exact hf
  | @flush b held =>
    have hn : ({ x.state with buffer := none }.note (.flushed b.keys.length)).bare.journal =
        x.state.bare.journal ++ [.flushed b.keys.length] := by
      rw [State.bare_note rfl]
      rfl
    rw [hn]
    exact hj.snoc (h.aside _ _ ⟨rfl, rfl⟩)

theorem Kept.chronicle (h : Kept rules Q) {x : Session} (hx : Reachable rules x) :
    Chronicle Q x.state.bare.journal := by
  induction hx with
  | start => exact chronicle_nil Q
  | move hx step ih => exact h.move hx ih step
  | @tick x _ _ instant ih =>
    obtain ⟨more, ht, hl⟩ := x.state.bare_tick instant
    rw [ht]
    refine h.asides ih fun l hm => ?_
    obtain ⟨t, n, rfl⟩ := hl l hm
    exact ⟨rfl, rfl⟩
  | accept _ _ _ ih =>
    rw [State.bare_note rfl]
    exact ih.snoc (h.aside _ _ ⟨rfl, rfl⟩)
  | refuse _ _ _ ih =>
    rw [State.bare_note rfl]
    exact ih.snoc (h.aside _ _ ⟨rfl, rfl⟩)
  | release _ _ _ ih =>
    rw [release_journal]
    exact h.asides ih (releaseLines_asides rules _ _ _)
  | take _ _ ih => exact ih

theorem Kept.line (h : Kept rules Q) {inputs : List Input} {before after : List Incident} {l : Incident}
    (he : (run rules inputs).journal = before ++ l :: after) (hl : l.isSending = false) :
    Q (before.filter fun i => !i.isSending) l := by
  have hj := h.chronicle (reachable_session rules inputs).1
  rw [session_state] at hj
  refine hj _ l (after.filter fun i => !i.isSending) ?_
  simp [State.bare, he, hl]

end

/-! ## What gates read -/

/-- The gates of a rule that is found are open, and a simultaneous one counts only if asked for. -/
theorem findRule_open {s : State} {k : Key} {simultaneous : Bool} {i : Nat}
    (found : findRule rules s k simultaneous = some i) :
    ∃ m, rules[i]? = some m ∧ m.gates.all (Gate.isOpen s.flags) = true := by
  obtain ⟨hi, reacts, -⟩ := List.findIdx?_eq_some_iff_getElem.1 found
  refine ⟨rules[i], List.getElem?_eq_getElem hi, ?_⟩
  rw [reactsTo, Bool.and_eq_true] at reacts
  exact reacts.1

variable (rules) in
/-- The flags that a line tells are those that the lines before it wrote. -/
def Told (before : List Incident) (flags : List Flag) : Prop :=
  ∀ f, f ∈ flags ↔ written rules f before = some true

theorem Recorded.told {s : State} (h : Recorded rules s) : Told rules s.bare.journal s.flags := by
  intro f
  have hf : decide (f ∈ s.flags) = (written rules f s.bare.journal).getD false :=
    (h f).trans (by rw [State.bare, written_bare])
  have hd : f ∈ s.flags ↔ decide (f ∈ s.flags) = true := decide_eq_true_iff.symm
  rw [hd, hf]
  cases written rules f s.bare.journal <;> simp

variable (rules) in
/-- What a line says of the gates of its rules. -/
def GatesRead (before : List Incident) : Incident → Prop
  | .buffered _ candidates flags => Told rules before flags ∧
    ∀ i ∈ candidates, ∃ m, rules[i]? = some m ∧ m.gates.all (Gate.isOpen flags) = true
  | .dispatched _ keys rule _ flags => Told rules before flags ∧
    ∀ i, rule = some i → ∃ m, rules[i]? = some m ∧
      (m.trigger.isTogether = false → m.gates.all (Gate.isOpen flags) = true) ∧
      (m.trigger.isTogether = true → ∃ o, (openings before).getLast? = some o ∧ i ∈ o.candidates ∧
        keys.head? = some o.key)
  | _ => True

theorem gatesRead_aside (before : List Incident) {l : Incident} (hl : l.isAside) : GatesRead rules before l := by
  cases l with
  | dispatched press keys rule instant flags => cases hl.1
  | buffered key candidates flags => cases hl.2
  | _ => trivial

theorem gatesRead_kept : Kept rules (GatesRead rules) where
  aside before l hl := gatesRead_aside before hl
  opening hx _ _ := ⟨hx.recorded.told, fun i hi => by
    obtain ⟨m, hm, hg, -⟩ := mem_openCandidates.1 hi
    exact ⟨m, hm, hg⟩⟩
  alone hx _ single := ⟨hx.recorded.told, fun i hi => by
    obtain ⟨m, hm, hg⟩ := findRule_open hi
    refine ⟨m, hm, fun _ => hg, fun together => ?_⟩
    have hs := single i hi
    rw [hm, Option.any_some, together] at hs
    cases hs⟩
  joined {x b i lines} hx held first hl := by
    have quiet : ∀ l ∈ lines, l.isAside ∧ ∀ f, l.writes? rules f = none := fun l hm => by
      obtain ⟨t, rfl⟩ := hl l hm
      exact ⟨⟨rfl, rfl⟩, fun _ => rfl⟩
    obtain ⟨o, ho⟩ := hx.preceded.opened b held
    have hi : i ∈ o.candidates := ho.candidates (List.mem_of_find?_eq_some first)
    have together := ho.together i hi
    refine ⟨fun f => ?_, fun j hj => ?_⟩
    · rw [written_append, written_eq_none fun l hm => (quiet l hm).2 f]
      exact hx.recorded.told f
    · obtain rfl := Option.some.inj hj
      cases hm : rules[i]? with
      | none =>
        rw [hm] at together
        cases together
      | some m =>
        rw [hm, Option.any_some] at together
        refine ⟨m, rfl, fun single => ?_, fun _ => ⟨o, ?_, hi, ?_⟩⟩
        · rw [together] at single
          cases single
        · rw [openings_asides fun l hm => (quiet l hm).1]
          exact ho.last
        · rw [List.head?_map]
          exact ho.first

theorem Told.of_bare {before : List Incident} {flags : List Flag}
    (h : Told rules (before.filter fun i => !i.isSending) flags) : Told rules before flags := by
  intro f
  rw [← written_bare]
  exact h f

theorem Told.isOpen {before : List Incident} {flags : List Flag} (h : Told rules before flags) (g : Gate) :
    g.isOpen flags = ((written rules g.flag before).getD false == g.isSet) := by
  have hf : decide (g.flag ∈ flags) = (written rules g.flag before).getD false := by
    rw [Bool.eq_iff_iff, decide_eq_true_iff, h g.flag]
    cases written rules g.flag before <;> simp
  rw [Gate.isOpen, hf]

/-- An open gate closes when the other value is written. -/
theorem Told.isOpen_later {before later : List Incident} {flags then_flags : List Flag} {g : Gate}
    (h : Told rules before then_flags) (now : Told rules (before ++ later) flags)
    (opened : g.isOpen then_flags = true) :
    g.isOpen flags = true ↔ written rules g.flag later ≠ some (!g.isSet) := by
  rw [h.isOpen, beq_iff_eq] at opened
  rw [now.isOpen, beq_iff_eq, written_append]
  cases hw : written rules g.flag later with
  | none => simpa using opened
  | some value => cases value <;> cases g.isSet <;> simp

/-- Whenever a press goes to a rule, its gates were open when the rule was matched. A rule for a single key is matched
as the press begins. A simultaneous one is matched when its first key is held back; a gate is open in the end unless
the other value was written to its flag since then. -/
theorem gates_read_when_matched (inputs : List Input) {before after : List Incident} {press i instant : Nat}
    {keys : List Key} {flags : List Flag}
    (dispatched : (run rules inputs).journal = before ++ .dispatched press keys (some i) instant flags :: after) :
    Told rules before flags ∧
    ∃ m, rules[i]? = some m ∧
      (m.trigger.isTogether = false → m.gates.all (Gate.isOpen flags) = true) ∧
      (m.trigger.isTogether = true → ∃ start first candidates then_flags between,
        before = start ++ .buffered first candidates then_flags :: between ∧
        (∀ key others flags, .buffered key others flags ∉ between) ∧ i ∈ candidates ∧ keys.head? = some first ∧
        m.gates.all (Gate.isOpen then_flags) = true ∧
        ∀ g ∈ m.gates, g.isOpen flags = true ↔ written rules g.flag between ≠ some (!g.isSet)) := by
  obtain ⟨told, read⟩ := gatesRead_kept.line dispatched rfl
  have told := told.of_bare
  obtain ⟨m, hm, single, together⟩ := read i rfl
  refine ⟨told, m, hm, single, fun ht => ?_⟩
  obtain ⟨o, last, candidate, head⟩ := together ht
  rw [openings_bare] at last
  obtain ⟨start, between, rfl, quiet⟩ := last_opening last
  rw [List.append_assoc, List.cons_append] at dispatched
  obtain ⟨first_told, matched⟩ := gatesRead_kept.line dispatched rfl
  have first_told := first_told.of_bare
  obtain ⟨n, hn, open_gates⟩ := matched i candidate
  obtain rfl := Option.some.inj (hn.symm.trans hm)
  refine ⟨start, o.key, o.candidates, o.flags, between, rfl, quiet, candidate, head, open_gates, fun g hg => ?_⟩
  have now : Told rules (start ++ between) flags := by
    intro f
    rw [told f, written_append, written_cons_quiet rfl, written_append]
  exact first_told.isOpen_later now (List.all_eq_true.1 open_gates g hg)

end

def navLayer : Layer := ⟨keyC, ⟨"nav"⟩, .hold, [(keyD, .key keyA [])]⟩

def navChord : Chord := ⟨[keyA, keyB], .key keyD [], 50, some ⟨"nav"⟩⟩

def navSet : RuleSet := ⟨[⟨"nav", [
  ⟨navLayer.text, navLayer.activation :: navLayer.bindings.map navLayer.gated, some navLayer.flag⟩,
  ⟨"chord " ++ navChord.text, [navChord.compiled], none⟩]⟩]⟩

theorem navSet_compile : navSet.Compiled where
  assembled := rfl
  fragments g hg f hf := by
    obtain rfl := List.mem_singleton.1 hg
    simp only [List.mem_cons, List.not_mem_nil, or_false] at hf
    rcases hf with rfl | rfl
    · exact ⟨.layer navLayer, rfl⟩
    · exact ⟨.chord navChord, rfl⟩

/-- The layer goes off after the first key of the chord. -/
def navInputs : List Input := [.down keyC 0, .down keyA 10, .up keyC 20, .down keyB 30]

def navJournal : List Incident := (run navSet.manipulators navInputs).journal

theorem navJournal_eq : (run navSet.manipulators navInputs).journal =
    navJournal.take 12 ++ .dispatched 3 [keyA, keyB] (some 2) 30 [] :: navJournal.drop 13 := rfl

/-- The chord fires although its layer is off. -/
theorem gates_read_when_matched_nav :
    navJournal = navJournal.take 12 ++ .dispatched 3 [keyA, keyB] (some 2) 30 [] :: navJournal.drop 13 ∧
    Told navSet.manipulators (navJournal.take 12) [] ∧
    ∃ m, navSet.manipulators[2]? = some m ∧
      (m.trigger.isTogether = false → m.gates.all (Gate.isOpen []) = true) ∧
      (m.trigger.isTogether = true → ∃ start first candidates then_flags between,
        navJournal.take 12 = start ++ .buffered first candidates then_flags :: between ∧
        (∀ key others flags, .buffered key others flags ∉ between) ∧ 2 ∈ candidates ∧
        [keyA, keyB].head? = some first ∧ m.gates.all (Gate.isOpen then_flags) = true ∧
        ∀ g ∈ m.gates, g.isOpen [] = true ↔ written navSet.manipulators g.flag between ≠ some (!g.isSet)) :=
  ⟨rfl, gates_read_when_matched navInputs navJournal_eq⟩

/-- So a closed gate does not always stop a rule. -/
theorem gate_closed_in_buffer :
    ¬∀ (r : RuleSet) (inputs : List Input) (before after : List Incident) (press i instant : Nat) (keys : List Key)
      (flags : List Flag) (m : Manipulator), r.Compiled →
      (run r.manipulators inputs).journal = before ++ .dispatched press keys (some i) instant flags :: after →
      r.manipulators[i]? = some m → m.gates.all (Gate.isOpen flags) = true := by
  intro h
  have hg := h navSet navInputs _ _ 3 2 30 [keyA, keyB] [] navChord.compiled navSet_compile navJournal_eq rfl
  cases hg

end KeyRules.Engine
