import KeyRules.Proofs.Engine.Reachable

/-!
# The journal grows

No operation takes a line back or puts one between others, sending left out. So what stands in the journal once stands
there at the end of every run that goes on from there (`run_grows`), and each line was written during some input
(`written_during`).
-/

namespace KeyRules.Engine

def Grows (s t : State) : Prop := s.bare.journal <+: t.bare.journal

section
variable {s t u : State}

theorem Grows.refl (s : State) : Grows s s := List.prefix_rfl

theorem Grows.trans (h : Grows s t) (h' : Grows t u) : Grows s u := List.IsPrefix.trans h h'

theorem Grows.of_lines {lines : List Incident} (h : t.bare.journal = s.bare.journal ++ lines) : Grows s t :=
  ⟨lines, h.symm⟩

theorem State.journal_note {l : Incident} (sending : l.isSending = false) (s : State) :
    (s.note l).bare.journal = s.bare.journal ++ [l] := by
  rw [State.bare_note sending]
  rfl

theorem note_grows {l : Incident} (sending : l.isSending = false) (s : State) : Grows s (s.note l) :=
  .of_lines (State.journal_note sending s)

end

section
variable (rules : List Manipulator)

theorem handOver_grows (b : Buffer) (i : Nat) (s : State) : Grows s (handOver rules b i s) :=
  handOver_of (P := Grows s) (.refl _) fun _ _ h => h.trans (note_grows rfl _)

theorem finish_grows (b : Buffer) (i : Nat) (s : State) : Grows s (finish rules b i s) := by
  rw [finish_eq]
  exact (handOver_grows rules b i s).trans (.of_lines (dispatch_journal rules _ _ _ _))

theorem press_grows (k : Key) (instant : Nat) (simultaneous : Bool) (s : State) :
    Grows s (press rules k instant simultaneous s) := by
  unfold press
  split
  · exact .of_lines (dispatch_journal rules _ _ _ s)
  · split
    · exact note_grows rfl _
    · exact .of_lines (dispatch_journal rules _ _ _ s)

theorem tick_grows (s : State) (instant : Nat) : Grows s (s.tick instant) := by
  obtain ⟨more, ticked, -⟩ := s.bare_tick instant
  exact .of_lines (congrArg State.journal ticked)

variable {rules} in
theorem Move.grows {x y : Session} (m : Move rules x y) : Grows x.state y.state := by
  cases m with
  | fire first => exact .of_lines (fire_journal rules _ _ _)
  | dispatch simultaneous free oldest once single => exact .of_lines (dispatch_journal rules _ _ _ _)
  | holdBack free oldest found together => exact note_grows rfl _
  | join held oldest narrowed some_left => exact .refl _
  | close held due => exact note_grows rfl _
  | finish held idle first ready => exact finish_grows rules _ _ _
  | flush held => exact note_grows rfl _

variable {rules} in
theorem Moves.grows {x y : Session} (m : Moves rules x y) : Grows x.state y.state := by
  induction m with
  | refl => exact .refl _
  | tail _ m ih => exact ih.trans (Move.grows m)

theorem advanceTo_grows (instant : Nat) (s : State) : Grows s (advanceTo rules instant s) :=
  (tick_grows s instant).trans (Moves.grows (moves_advanceTo (x := { state := s }) instant rfl))

theorem flushHolding_grows (k : Key) (s : State) : Grows s (flushHolding rules k s) :=
  Moves.grows (moves_flushHolding rules k { state := s }).1

theorem keyDown_grows (k : Key) (instant : Nat) (s : State) :
    Grows (advanceTo rules instant s) (keyDown rules k instant s) := by
  unfold keyDown
  simp only
  split
  · exact note_grows rfl _
  · exact (note_grows rfl _).trans (Moves.grows (moves_accept k { state := advanceTo rules instant s }))

theorem keyUp_grows (k : Key) (instant : Nat) (s : State) :
    Grows (flushHolding rules k (advanceTo rules instant s)) (keyUp rules k instant s) :=
  .of_lines (release_journal rules _ _ _)

theorem step_grows (s : State) (i : Input) : Grows s (step rules s i) := by
  cases i with
  | down k instant => exact (advanceTo_grows rules instant s).trans (keyDown_grows rules k instant s)
  | up k instant =>
    exact (advanceTo_grows rules instant s).trans ((flushHolding_grows rules k _).trans (keyUp_grows rules k instant s))
  | advance instant => exact advanceTo_grows rules instant s
  | take => exact .refl _

theorem run_grows (inputs more : List Input) : Grows (run rules inputs) (run rules (inputs ++ more)) := by
  induction more using List.reverseRecOn with
  | nil => exact (List.append_nil inputs).symm ▸ .refl _
  | append_singleton more i ih =>
    rw [← List.append_assoc, run_append]
    exact ih.trans (step_grows rules _ i)

variable {rules} in
/-- A line was written during one of the inputs. -/
theorem written_during {inputs : List Input} {before after : List Incident} {l : Incident}
    (written : (run rules inputs).bare.journal = before ++ l :: after) :
    ∃ done input later, inputs = done ++ input :: later ∧ (run rules done).bare.journal <+: before ∧
      ∃ more, (run rules (done ++ [input])).bare.journal = before ++ l :: more := by
  induction inputs using List.reverseRecOn generalizing after with
  | nil => cases before <;> cases written
  | append_singleton inputs input ih =>
    obtain ⟨lines, grown⟩ := run_grows rules inputs [input]
    rw [written] at grown
    -- the last input wrote the line, or it stood there before
    rcases List.append_eq_append_iff.1 grown with ⟨between, early, -⟩ | ⟨between, early, late⟩
    · exact ⟨inputs, input, [], rfl, ⟨between, early.symm⟩, after, written⟩
    · cases between with
      | nil =>
        rw [List.append_nil] at early
        exact ⟨inputs, input, [], rfl, early ▸ List.prefix_rfl, after, written⟩
      | cons j between =>
        obtain ⟨rfl, -⟩ := List.cons.inj late
        obtain ⟨done, first, later, rfl, old, new⟩ := ih early
        exact ⟨done, first, later ++ [input], by simp, old, new⟩

end

end KeyRules.Engine
