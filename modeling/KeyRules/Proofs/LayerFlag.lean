import KeyRules.Proofs.Engine.SharedFlag
import KeyRules.Proofs.HoldFlags

/-!
# Flags of layers that a simultaneous press opens

Every binding of such a layer is a way to open it, so several presses that set its flag can be in flight. The first of
them to end clears the flag for all: it is set exactly if one of them is in flight and none ended since it began
(`simlayer_flag`, `simlayer_flag_cleared`).
-/

namespace KeyRules

open Engine

/-- A rule that opens the layer, whose fragment starts at an index. -/
def Layer.Opens (l : Layer) (n i : Nat) : Prop := ∃ j < l.openerBindings.length, i = n + (l.bindings.length + j)

theorem Layer.opener_raises (l : Layer) (threshold : Millis) (b : Key × Action) :
    Raises l.flag (l.opener threshold b) where
  press := by
    have quiet : lastWrite l.flag b.2.events = none := lastWrite_events l.flag b.2 false
    simp only [opener]
    rw [lastWrite_cons, quiet, Option.none_or]
    exact if_pos rfl
  hold := rfl
  tap := rfl
  goesOn := rfl
  release := lastWrite_setFlag l.flag false
  invoked := rfl
  canceled := rfl

theorem Layer.compile_simultaneous {l : Layer} {threshold : Int} (mode : l.mode = .simultaneous threshold)
    {f : Fragment} (fragment : l.compile = .ok f) :
    ∃ window, f.manipulators = l.bindings.map l.gated ++ l.openerBindings.map (l.opener window) := by
  obtain ⟨ms, rfl, hms⟩ := l.compile_ok fragment
  obtain ⟨window, -, he⟩ := l.manipulators_simultaneous mode hms
  exact ⟨window, he⟩

/-- In an assembled rule set the openers of a layer alone write its flag. -/
theorem Layer.shared {r : RuleSet} (assembled : RuleSet.assemble r.groups = .ok r) {l : Layer} {threshold : Int}
    (mode : l.mode = .simultaneous threshold) (opened : l.openerBindings ≠ []) {f : Fragment}
    (fragment : l.compile = .ok f) {n : Nat} (placed : r.Places f n) :
    Shared r.manipulators l.flag (l.Opens n) := by
  obtain ⟨window, hms⟩ := l.compile_simultaneous mode fragment
  constructor
  · rintro i ⟨j, hj, rfl⟩
    refine ⟨l.opener window l.openerBindings[j], placed.get ?_, l.opener_raises window _⟩
    rw [hms, List.getElem?_append_right (by simp)]
    simp [hj]
  · intro i m hm hw
    obtain ⟨b, bs, hb⟩ := List.exists_cons_of_ne_nil opened
    have own : l.flag ∈ f.writes := by
      refine Fragment.mem_writes.2 ⟨l.opener window b, ?_, .of_release (l.opener_raises window b).release⟩
      rw [hms, hb]
      simp
    obtain ⟨j, rfl, hj⟩ := placed.sole_writer assembled own hm hw
    rw [hms] at hj
    rcases Nat.lt_or_ge j l.bindings.length with hl | hl
    · rw [List.getElem?_append_left (by simpa using hl)] at hj
      obtain ⟨c, -, rfl⟩ := List.mem_map.1 (List.mem_of_getElem? hj)
      exact (l.gated_writes c _ hw).elim
    · obtain ⟨k, rfl⟩ := Nat.exists_eq_add_of_le hl
      refine ⟨k, ?_, rfl⟩
      rw [List.getElem?_append_right (by simp)] at hj
      simpa using (List.getElem?_eq_some_iff.1 hj).1

/-- In every state of a run the flag of a layer that simultaneous presses open is set exactly if such a press is in
flight and none of them ended since it began. -/
theorem simlayer_flag {r : RuleSet} (compiled : r.Compiled) {l : Layer} {threshold : Int}
    (mode : l.mode = .simultaneous threshold) (opened : l.openerBindings ≠ []) {f : Fragment}
    (fragment : l.compile = .ok f) {n : Nat} (placed : r.Places f n) (inputs : List Input) :
    (run r.manipulators inputs).flag l.flag = true ↔
      ∃ p ∈ (run r.manipulators inputs).presses, (∃ i, p.rule = some i ∧ l.Opens n i) ∧
        ∀ b ∈ beginnings (run r.manipulators inputs).journal, (∃ i, b.rule = some i ∧ l.Opens n i) →
          b.press ∉ endedSince p.id (run r.manipulators inputs).journal := by
  have lit := (reachable_session r.manipulators inputs).1.lit (l.shared compiled.assembled mode opened fragment placed)
  rw [session_state] at lit
  refine Iff.trans lit ?_
  constructor
  · rintro ⟨o, ho, opens, unended⟩
    obtain ⟨p, hp, rfl⟩ := List.mem_map.1 ho
    exact ⟨p, hp, opens, unended⟩
  · rintro ⟨p, hp, opens, unended⟩
    exact ⟨_, State.mem_handled hp, opens, unended⟩

def simLayer : Layer := ⟨keyA, ⟨"nav"⟩, .simultaneous 200, [(keyB, .key keyD []), (keyC, .key keyA [])]⟩

def simFragment : Fragment :=
  ⟨simLayer.text, simLayer.bindings.map simLayer.gated ++ simLayer.bindings.map (simLayer.opener 200), some ⟨"nav"⟩⟩

def simSet : RuleSet := ⟨[⟨"layers", [simFragment]⟩]⟩

theorem simSet_compile : simSet.Compiled where
  assembled := rfl
  fragments g hg f hf := by
    obtain rfl := List.mem_singleton.1 hg
    obtain rfl := List.mem_singleton.1 hf
    exact ⟨.layer simLayer, rfl⟩

theorem simSet_places : simSet.Places simFragment 0 := ⟨[], [], rfl, rfl⟩

/-- The layer is opened with `b`. While `b` is still down, it is opened again with `c`. -/
def reopenedInputs : List Input := [.down keyA 0, .down keyB 10, .up keyA 20, .down keyA 30, .down keyC 40]

/-- The flag is set while both presses are in flight. The end of the first one clears it. -/
theorem simlayer_flag_cleared :
    simLayer.compile = .ok simFragment ∧ simLayer.openerBindings ≠ [] ∧ simSet.Places simFragment 0 ∧
    (run simSet.manipulators reopenedInputs).flag ⟨"nav"⟩ = true ∧
    (∃ p ∈ (run simSet.manipulators reopenedInputs).presses, (∃ i, p.rule = some i ∧ simLayer.Opens 0 i) ∧
      ∀ b ∈ beginnings (run simSet.manipulators reopenedInputs).journal,
        (∃ i, b.rule = some i ∧ simLayer.Opens 0 i) →
          b.press ∉ endedSince p.id (run simSet.manipulators reopenedInputs).journal) ∧
    (run simSet.manipulators (reopenedInputs ++ [.up keyB 50])).flag ⟨"nav"⟩ = false := by
  have set : (run simSet.manipulators reopenedInputs).flag ⟨"nav"⟩ = true := by rfl
  have opened : simLayer.openerBindings ≠ [] := List.cons_ne_nil _ _
  exact ⟨rfl, opened, simSet_places, set,
    (simlayer_flag simSet_compile (l := simLayer) rfl opened rfl simSet_places reopenedInputs).1 set, by rfl⟩

/-- So the flag can be clear while a press that opened the layer is in flight. -/
theorem simlayer_flag_lost :
    ¬∀ (r : RuleSet) (l : Layer) (threshold : Int) (f : Fragment) (n : Nat) (inputs : List Input), r.Compiled →
      l.mode = .simultaneous threshold → l.compile = .ok f → r.Places f n →
      ((run r.manipulators inputs).flag l.flag = true ↔
        ∃ p ∈ (run r.manipulators inputs).presses, ∃ i, p.rule = some i ∧ l.Opens n i) := by
  intro h
  have exact := h simSet simLayer 200 simFragment 0 (reopenedInputs ++ [.up keyB 50]) simSet_compile rfl rfl simSet_places
  have rules : (run simSet.manipulators (reopenedInputs ++ [.up keyB 50])).presses.map (·.rule) = [some 3] := by rfl
  have clear : (run simSet.manipulators (reopenedInputs ++ [.up keyB 50])).flag ⟨"nav"⟩ = false := by rfl
  have third : some 3 ∈ (run simSet.manipulators (reopenedInputs ++ [.up keyB 50])).presses.map (·.rule) := by
    rw [rules]
    exact List.mem_singleton.2 rfl
  obtain ⟨p, hp, hr⟩ := List.mem_map.1 third
  have set : (run simSet.manipulators (reopenedInputs ++ [.up keyB 50])).flag ⟨"nav"⟩ = true :=
    exact.2 ⟨p, hp, 3, hr, 1, by decide, rfl⟩
  rw [clear] at set
  cases set

end KeyRules
