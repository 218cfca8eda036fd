import KeyRules.Proofs.Assembly

/-!
# Places of fragments

The manipulators of a fragment stand together in the rule list (`RuleSet.Places`). Assembly refuses a flag with two
writers, so a rule that writes a flag of a fragment belongs to that fragment (`RuleSet.Places.sole_writer`).
-/

namespace KeyRules

/-! ## Written flags -/

def Manipulator.Writes (m : Manipulator) (f : Flag) : Prop := ∃ e ∈ m.events, e.flag? = some f

theorem Fragment.mem_writes {f : Fragment} {flag : Flag} :
    flag ∈ f.writes ↔ ∃ m ∈ f.manipulators, m.Writes flag := by
  simp only [writes, Flag.mem_sorted, List.mem_filterMap, List.mem_flatMap, Manipulator.Writes]
  constructor
  · rintro ⟨e, ⟨m, hm, he⟩, hf⟩
    exact ⟨m, hm, e, he, hf⟩
  · rintro ⟨m, hm, e, he, hf⟩
    exact ⟨e, ⟨m, hm, he⟩, hf⟩

namespace RuleSet

/-! ## One writer for each flag -/

theorem writes_nodup {groups : List Group} {r : RuleSet} (assembled : assemble groups = .ok r) :
    ((groups.flatMap (·.fragments)).flatMap (·.writes)).Nodup := by
  obtain ⟨-, sole, -⟩ := wellFormed_iff.1 (assemble_ok_iff.1 assembled).1
  have nodup := soleWriters_iff.1 sole
  rwa [← List.flatMap_map, entries_fragments] at nodup

/-! ## Where a fragment stands -/

/-- The manipulators of the fragment start at an index of the rule list. -/
def Places (r : RuleSet) (f : Fragment) (n : Nat) : Prop :=
  ∃ before after, r.groups.flatMap (·.fragments) = before ++ f :: after ∧
    n = (before.flatMap (·.manipulators)).length

variable {r : RuleSet} {f : Fragment} {n : Nat}

theorem Places.get (h : r.Places f n) {j : Nat} {m : Manipulator} (hm : f.manipulators[j]? = some m) :
    r.manipulators[n + j]? = some m := by
  obtain ⟨before, after, hl, rfl⟩ := h
  obtain ⟨hj, -⟩ := List.getElem?_eq_some_iff.1 hm
  rw [manipulators_eq, hl, List.flatMap_append, List.flatMap_cons,
    List.getElem?_append_right (Nat.le_add_right _ _), Nat.add_sub_cancel_left, List.getElem?_append_left hj]
  exact hm

theorem Places.sole_writer (h : r.Places f n) (assembled : assemble r.groups = .ok r) {flag : Flag}
    (own : flag ∈ f.writes) {i : Nat} {m : Manipulator} (hm : r.manipulators[i]? = some m) (hw : m.Writes flag) :
    ∃ j, i = n + j ∧ f.manipulators[j]? = some m := by
  obtain ⟨before, after, hl, rfl⟩ := h
  have hn := writes_nodup assembled
  rw [hl, List.flatMap_append, List.flatMap_cons, List.nodup_append, List.nodup_append] at hn
  obtain ⟨-, ⟨-, -, later⟩, earlier⟩ := hn
  have elsewhere : ∀ {fs : List Fragment}, m ∈ fs.flatMap (·.manipulators) → flag ∈ fs.flatMap (·.writes) := by
    intro fs hf
    obtain ⟨g, hg, hmg⟩ := List.mem_flatMap.1 hf
    exact List.mem_flatMap.2 ⟨g, hg, Fragment.mem_writes.2 ⟨m, hmg, hw⟩⟩
  rw [manipulators_eq, hl, List.flatMap_append, List.flatMap_cons] at hm
  rcases Nat.lt_or_ge i (before.flatMap (·.manipulators)).length with hi | hi
  · rw [List.getElem?_append_left hi] at hm
    exact (earlier _ (elsewhere (List.mem_of_getElem? hm)) _ (List.mem_append_left _ own) rfl).elim
  · rw [List.getElem?_append_right hi] at hm
    obtain ⟨j, rfl⟩ := Nat.exists_eq_add_of_le hi
    rw [Nat.add_sub_cancel_left] at hm
    refine ⟨j, rfl, ?_⟩
    rcases Nat.lt_or_ge j f.manipulators.length with hj | hj
    · rwa [List.getElem?_append_left hj] at hm
    · rw [List.getElem?_append_right hj] at hm
      exact (later _ own _ (elsewhere (List.mem_of_getElem? hm)) rfl).elim

end RuleSet

end KeyRules
