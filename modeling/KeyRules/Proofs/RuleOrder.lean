import KeyRules.Proofs.ChordOrder
import KeyRules.Proofs.Engine.Renumbering

/-!
# The order of rules

Of two rules with the same trigger the later one is dead if it has all gates of the earlier one: leaving it out changes
nothing (`shadowed_rule_dead`). Two blocks of rules that have no key in common may change places
(`apart_blocks_commute`).
-/

namespace KeyRules

open Engine

/-! ## Shadowed rules -/

/-- Where a rule stands once rule `j` is left out. -/
def placeWithout (j i : Nat) : Nat := if i < j then i else i - 1

/-- The place in the full list of what stands at a place without rule `j`. -/
def placeWith (j i : Nat) : Nat := if i < j then i else i + 1

theorem placeWithout_placeWith (j i : Nat) : placeWith j i ≠ j ∧ placeWithout j (placeWith j i) = i := by
  grind [placeWith, placeWithout]

theorem placeWithout_lt {j a b : Nat} (ha : a ≠ j) (hb : b ≠ j) (less : a < b) :
    placeWithout j a < placeWithout j b := by
  unfold placeWithout
  split <;> split <;> omega

/-- Leaving out a rule that an earlier one shadows only renumbers the others. -/
theorem renumbering_eraseIdx {rules : List Manipulator} {i j : Nat} {m n : Manipulator} (before : i < j)
    (earlier : rules[i]? = some m) (later : rules[j]? = some n) (shadows : m.Shadows n) :
    Renumbering rules (rules.eraseIdx j) (· ≠ j) (placeWithout j) where
  same {a} other := by
    rw [List.getElem?_eraseIdx]
    unfold placeWithout
    by_cases less : a < j
    · rw [if_pos less, if_pos less]
    · rw [if_neg less, if_neg (by omega), Nat.sub_add_cancel (by omega)]
  onto {a} _ := ⟨placeWith j a, placeWithout_placeWith j a⟩
  ordered ha hb _ _ _ _ less := placeWithout_lt ha hb less
  shadowed {a e} ha gone := by
    obtain rfl : a = j := not_ne_iff.1 gone
    obtain rfl := Option.some.inj (ha.symm.trans later)
    exact ⟨i, m, before, Nat.ne_of_lt before, earlier, shadows⟩

/-- Let an earlier rule have the same trigger as a later one and no other gates. Then the later one never gets a press,
and without it the same is sent, armed and set after every event. -/
theorem shadowed_rule_dead {rules : List Manipulator} {i j : Nat} {m n : Manipulator} (before : i < j)
    (earlier : rules[i]? = some m) (later : rules[j]? = some n) (shadows : m.Shadows n) (inputs : List Input) :
    (∀ press keys instant flags, .dispatched press keys (some j) instant flags ∉ (run rules inputs).journal) ∧
      (run (rules.eraseIdx j) inputs).output = (run rules inputs).output ∧
      (run (rules.eraseIdx j) inputs).armed = (run rules inputs).armed ∧
      (run (rules.eraseIdx j) inputs).flags = (run rules inputs).flags := by
  have renumbered := renumbering_eraseIdx before earlier later shadows
  exact ⟨fun press keys instant flags line => renumbered.dispatched_stays line rfl, renumbered.run inputs⟩

/-- The chord of both keys once more, slower and on a layer. -/
def bothKeysAgain : Chord := { bothKeys with window := 200, gate := some ⟨"nav"⟩ }

def chordTwice : List Manipulator := [bothKeys.compiled, homeRow.manipulator 200, bothKeysAgain.compiled]

theorem bothKeys_shadows : bothKeys.compiled.Shadows bothKeysAgain.compiled := ⟨⟨rfl, rfl⟩, List.nil_subset _⟩

/-- While the home-row key is held, both keys fire the first chord, which takes the armed modifiers along. -/
theorem shadowed_rule_dead_chord :
    chordTwice.eraseIdx 2 = besideHomeRow.reverse ∧
      (∀ press keys instant flags, .dispatched press keys (some 2) instant flags ∉
        (run chordTwice ([.down keyA 0] ++ keysDown ([keyC, keyB].zip [230, 260]))).journal) ∧
      (run (chordTwice.eraseIdx 2) ([.down keyA 0] ++ keysDown ([keyC, keyB].zip [230, 260]))).output =
        (run chordTwice ([.down keyA 0] ++ keysDown ([keyC, keyB].zip [230, 260]))).output := by
  obtain ⟨dead, same, -⟩ := @shadowed_rule_dead chordTwice 0 2 _ _ (by decide) rfl rfl
    bothKeys_shadows ([.down keyA 0] ++ keysDown ([keyC, keyB].zip [230, 260]))
  exact ⟨rfl, dead, same⟩

/-! ## Blocks of rules -/

/-- Where a rule stands once a block of `b` rules behind the first `a` has moved behind the next `c`. -/
def placeMoved (a b c i : Nat) : Nat :=
  if i < a then i else if i < a + b then i + c else if i < a + b + c then i - b else i

theorem placeMoved_placeMoved (a b c i : Nat) : placeMoved a b c (placeMoved a c b i) = i := by
  grind [placeMoved]

/-- Two rules keep their order unless the one is in the first block and the other in the second. -/
theorem placeMoved_lt {a b c i j : Nat} (less : i < j)
    (kept : ¬((a ≤ i ∧ i < a + b) ∧ a + b ≤ j ∧ j < a + b + c)) : placeMoved a b c i < placeMoved a b c j := by
  grind [placeMoved]

section
variable {A B C D : List Manipulator}

variable (A B C D) in
theorem getElem?_placeMoved (i : Nat) :
    (A ++ C ++ B ++ D)[placeMoved A.length B.length C.length i]? = (A ++ B ++ C ++ D)[i]? := by
  grind [placeMoved]

theorem mem_of_first_block {i : Nat} {m : Manipulator} (placed : (A ++ B ++ C ++ D)[i]? = some m)
    (after : A.length ≤ i) (before : i < A.length + B.length) : m ∈ B := by
  grind

theorem mem_of_second_block {i : Nat} {m : Manipulator} (placed : (A ++ B ++ C ++ D)[i]? = some m)
    (after : A.length + B.length ≤ i) (before : i < A.length + B.length + C.length) : m ∈ C := by
  grind

/-- Moving blocks of rules without a common key only renumbers the rules. -/
theorem renumbering_blocks (apart : ∀ m ∈ B, ∀ n ∈ C, ∀ k ∈ m.trigger.keys, k ∉ n.trigger.keys) :
    Renumbering (A ++ B ++ C ++ D) (A ++ C ++ B ++ D) (fun _ => True) (placeMoved A.length B.length C.length) where
  same {i} _ := getElem?_placeMoved A B C D i
  onto {j} _ := ⟨placeMoved A.length C.length B.length j, trivial, placeMoved_placeMoved ..⟩
  ordered {i j m n k} _ _ hm hn km kn less := by
    refine placeMoved_lt less fun ⟨⟨after, before⟩, after', before'⟩ => ?_
    exact apart m (mem_of_first_block hm after before) n (mem_of_second_block hn after' before') k km kn
  shadowed _ gone := absurd trivial gone

/-- If no rule of one block has a key with a rule of the next block in common, the two blocks may change places: the
same is sent, armed and set after every event. -/
theorem apart_blocks_commute (apart : ∀ m ∈ B, ∀ n ∈ C, ∀ k ∈ m.trigger.keys, k ∉ n.trigger.keys)
    (inputs : List Input) :
    (run (A ++ B ++ C ++ D) inputs).output = (run (A ++ C ++ B ++ D) inputs).output ∧
      (run (A ++ B ++ C ++ D) inputs).armed = (run (A ++ C ++ B ++ D) inputs).armed ∧
      (run (A ++ B ++ C ++ D) inputs).flags = (run (A ++ C ++ B ++ D) inputs).flags := by
  obtain ⟨output, armed, flags⟩ := (renumbering_blocks (A := A) (D := D) apart).run inputs
  exact ⟨output.symm, armed.symm, flags.symm⟩

end

/-- The home-row key and the chord of two other keys may change places, also between rules that share keys with both. -/
theorem apart_blocks_commute_chord :
    (∀ m ∈ [homeRow.manipulator 200], ∀ n ∈ [bothKeys.compiled], ∀ k ∈ m.trigger.keys, k ∉ n.trigger.keys) ∧
      (run ([bothKeysAgain.compiled] ++ [homeRow.manipulator 200] ++ [bothKeys.compiled] ++ [homeRow.manipulator 100])
          ([.down keyA 0] ++ keysDown ([keyC, keyB].zip [230, 260]))).output =
        (run ([bothKeysAgain.compiled] ++ [bothKeys.compiled] ++ [homeRow.manipulator 200] ++ [homeRow.manipulator 100])
          ([.down keyA 0] ++ keysDown ([keyC, keyB].zip [230, 260]))).output := by
  have apart : ∀ m ∈ [homeRow.manipulator 200], ∀ n ∈ [bothKeys.compiled], ∀ k ∈ m.trigger.keys,
      k ∉ n.trigger.keys := by decide +kernel
  exact ⟨apart, (apart_blocks_commute apart _).1⟩

end KeyRules
