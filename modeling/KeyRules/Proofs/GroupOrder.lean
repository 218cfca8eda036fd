import KeyRules.Proofs.Assembly

/-!
# The order of groups

Groups that are assembled in an order of their names are arranged first. An order arranges them exactly if it lists
their names, which must differ, and then it does not matter how they stood before (`RuleSet.arrange_ok_iff`). So an
assembly in the order in which the groups stand is a plain one, and the order alone decides what comes out
(`RuleSet.ordered_assembly`).
-/

namespace KeyRules.RuleSet

/-- What is found and then taken out stood in between. -/
theorem perm_find?_eraseP {α : Type} {p : α → Bool} {as : List α} {a : α} (found : as.find? p = some a) :
    as.Perm (a :: as.eraseP p) := by
  obtain ⟨here, before, after, rfl, others⟩ := List.find?_eq_some_iff_append.1 found
  have skipped : ∀ b ∈ before, ¬p b = true := fun b hb => by simpa using others b hb
  rw [List.eraseP_append_right _ skipped, List.eraseP_cons_of_pos here]
  exact List.perm_middle

/-- The groups taken are those that the names list, and none is left. -/
theorem pick_ok_iff {left taken picked : List Group} {names : List String} (distinct : (left.map (·.name)).Nodup) :
    pick left taken names = .ok picked ↔
      ∃ rest, picked = taken ++ rest ∧ rest.map (·.name) = names ∧ rest.Perm left := by
  induction names generalizing left taken with
  | nil =>
    cases left with
    | nil =>
      constructor
      · exact fun h => ⟨[], by rw [List.append_nil, Except.ok.inj h], rfl, .refl _⟩
      · rintro ⟨rest, rfl, -, none_left⟩
        rw [none_left.eq_nil, List.append_nil]
        rfl
    | cons g left =>
      refine ⟨fun h => (nomatch h), fun ⟨rest, _, unnamed, all⟩ => ?_⟩
      rw [List.map_eq_nil_iff.1 unnamed] at all
      exact absurd all.symm (List.cons_ne_nil g left ∘ List.Perm.eq_nil)
  | cons name names ih =>
    unfold pick
    cases found : left.find? (·.name = name) with
    | none =>
      constructor
      · intro h
        simp only at h
        split at h <;> cases h
      · rintro ⟨rest, -, named, all⟩
        obtain ⟨g, rest, rfl, rfl, -⟩ := List.map_eq_cons_iff.1 named
        have other := List.find?_eq_none.1 found g (all.subset List.mem_cons_self)
        simp at other
    | some g =>
      have here : g.name = name := by simpa using List.find?_some found
      have taken_out := perm_find?_eraseP found
      have apart : ((left.eraseP (·.name = name)).map (·.name)).Nodup :=
        distinct.sublist (List.eraseP_sublist.map _)
      dsimp only
      rw [ih apart]
      constructor
      · rintro ⟨rest, rfl, named, all⟩
        exact ⟨g :: rest, by simp, by rw [List.map_cons, here, named], (all.cons g).trans taken_out.symm⟩
      · rintro ⟨rest, rfl, named, all⟩
        obtain ⟨h, rest, rfl, there, named⟩ := List.map_eq_cons_iff.1 named
        -- of the groups that are left only one has the name
        obtain rfl : h = g := List.inj_on_of_nodup_map distinct (all.subset List.mem_cons_self)
          (List.mem_of_find?_eq_some found) (there.trans here.symm)
        exact ⟨rest, by simp, named, (all.trans taken_out).cons_inv⟩

theorem arrange_ok_iff {groups arranged : List Group} {order : List String} :
    arrange groups order = .ok arranged ↔
      (groups.map (·.name)).Nodup ∧ arranged.map (·.name) = order ∧ arranged.Perm groups := by
  unfold arrange
  cases again : repeatedName? [] groups with
  | some name =>
    refine ⟨fun h => (nomatch h), fun h => ?_⟩
    rw [repeatedName?_none.2 h.1] at again
    cases again
  | none =>
    have distinct := repeatedName?_none.1 again
    dsimp only
    rw [pick_ok_iff distinct]
    constructor
    · rintro ⟨rest, rfl, named, all⟩
      exact ⟨distinct, named, all⟩
    · rintro ⟨-, named, all⟩
      exact ⟨arranged, rfl, named, all⟩

theorem assembleOrdered_ok_iff {groups : List Group} {order : List String} {r : RuleSet} :
    assembleOrdered groups order = .ok r ↔
      (groups.map (·.name)).Nodup ∧
        ∃ arranged, arranged.map (·.name) = order ∧ arranged.Perm groups ∧ assemble arranged = .ok r := by
  rw [assembleOrdered, bind_ok_iff]
  simp only [arrange_ok_iff]
  constructor
  · rintro ⟨arranged, ⟨distinct, named, all⟩, assembled⟩
    exact ⟨distinct, arranged, named, all, assembled⟩
  · rintro ⟨distinct, arranged, named, all, assembled⟩
    exact ⟨arranged, ⟨distinct, named, all⟩, assembled⟩

/-- Groups stay where they are in the order of their own names. -/
theorem assembleOrdered_names (groups : List Group) :
    assembleOrdered groups (groups.map (·.name)) = assemble groups := by
  by_cases distinct : (groups.map (·.name)).Nodup
  · rw [assembleOrdered, arrange_ok_iff.2 ⟨distinct, rfl, .refl _⟩]
    rfl
  · rw [← repeatedName?_none] at distinct
    obtain ⟨name, again⟩ := Option.ne_none_iff_exists'.1 distinct
    rw [assembleOrdered, arrange, assemble, again]
    rfl

/-- An assembly in the order in which the groups stand is the plain one, errors included. In any order it succeeds
exactly if the order lists the names of the groups, which differ, and the groups arranged in that order assemble; how
they stood before leaves no trace in the result. -/
theorem ordered_assembly (groups : List Group) (order : List String) :
    assembleOrdered groups (groups.map (·.name)) = assemble groups ∧
    (∀ r, assembleOrdered groups order = .ok r ↔
      (groups.map (·.name)).Nodup ∧ order.Perm (groups.map (·.name)) ∧
        ∃ arranged, arranged.map (·.name) = order ∧ arranged.Perm groups ∧ assemble arranged = .ok r) ∧
    ∀ others : List Group, others.Perm groups →
      ∀ r, assembleOrdered groups order = .ok r → assembleOrdered others order = .ok r := by
  refine ⟨assembleOrdered_names groups, fun r => ?_, fun others same r => ?_⟩
  · rw [assembleOrdered_ok_iff]
    constructor
    · rintro ⟨distinct, arranged, named, all, assembled⟩
      exact ⟨distinct, named ▸ all.map _, arranged, named, all, assembled⟩
    · rintro ⟨distinct, -, arranged, named, all, assembled⟩
      exact ⟨distinct, arranged, named, all, assembled⟩
  · simp only [assembleOrdered_ok_iff]
    rintro ⟨distinct, arranged, named, all, assembled⟩
    exact ⟨(same.map _).nodup_iff.2 distinct, arranged, named, all.trans same.symm, assembled⟩

end KeyRules.RuleSet
