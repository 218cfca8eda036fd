import KeyRules.Proofs.Engine.InStep

/-!
# Alike states

Akin states of one engine that hold back the same keys stay so whatever comes in (`Alike.run`). So they output the same
from then on.
-/

namespace KeyRules.Engine

section
variable (rules : List Manipulator)

/-- Akin states that hold back the same keys. -/
structure Alike (s t : State) : Prop where
  akin : Akin rules rules s t
  buffer : s.buffer = t.buffer

theorem rel_self {α : Type} {Q : α → α → Prop} (refl : ∀ a, Q a a) (o : Option α) : Option.Rel Q o o := by
  cases o with
  | none => exact .none
  | some a => exact .some (refl a)

theorem eq_of_rel {α : Type} {o o' : Option α} (h : Option.Rel (· = ·) o o') : o = o' := by
  cases h with
  | none => rfl
  | some same => exact congrArg some same

theorem chooseAlike_self : ChooseAlike rules rules (· = ·) where
  found flags k simultaneous := by
    rw [findRule_flags flags]
    exact rel_self (fun i => Eq.refl rules[i]?) _
  opened flags k instant deadline := by rw [openCandidates_flags flags]
  keys same := congrArg Buffer.keys same
  deadline same := congrArg Buffer.deadline same
  fits same k := by rw [same]
  joined same k instant := by rw [same]
  complete same := by
    rw [same]
    exact rel_self (fun _ => ⟨rfl, rfl⟩) _

end

section
variable {rules : List Manipulator} {s t : State}

theorem Alike.run (h : Alike rules s t) (more : List Input) :
    Alike rules (more.foldl (Engine.step rules) s) (more.foldl (Engine.step rules) t) := by
  have started : InStep rules rules (· = ·) s t := ⟨h.akin, h.buffer ▸ rel_self (fun _ => rfl) _⟩
  obtain ⟨akin, buffers⟩ := started.run (chooseAlike_self rules) more
  exact ⟨akin, eq_of_rel buffers⟩

end

end KeyRules.Engine
