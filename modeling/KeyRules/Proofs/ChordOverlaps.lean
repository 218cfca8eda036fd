import KeyRules.Proofs.Compiled
import KeyRules.Proofs.Engine.Candidates

/-!
# Overlaps of chords

The report on a list of chords has an entry for each two of them with a common key, once, sorted by the later and then
by the earlier one (`Chord.mem_overlaps`, `Chord.overlaps_sorted`). It is what a user has to know of the engine: chords
that can wait together for the same keys are reported, with all these keys among the shared ones (`overlaps_reported`).
-/

namespace KeyRules

namespace Chord

/-! ## The report -/

theorem mem_overlapsWith {before : List Chord} {d : Chord} {place : Nat} {o : Overlap} :
    o ∈ overlapsWith before d place ↔
      o.later = place ∧ ∃ c, before[o.earlier]? = some c ∧ c.sharedKeys d ≠ [] ∧ o.shared = c.sharedKeys d := by
  simp only [overlapsWith, List.mem_filterMap, Prod.exists, List.mem_zipIdx_iff_getElem?]
  constructor
  · rintro ⟨c, earlier, placed, found⟩
    split at found
    · cases found
    · rename_i some_shared
      cases found
      exact ⟨rfl, c, placed, mt List.isEmpty_iff.2 some_shared, rfl⟩
  · obtain ⟨earlier, later, shared⟩ := o
    rintro ⟨rfl, c, placed, some_shared, rfl⟩
    exact ⟨c, earlier, placed, if_neg (mt List.isEmpty_iff.1 some_shared)⟩

theorem sharedKeys_ne_nil {c d : Chord} : c.sharedKeys d ≠ [] ↔ ∃ k ∈ c.keys, k ∈ d.keys := by
  simp [sharedKeys]

theorem mem_overlaps {cs : List Chord} {o : Overlap} :
    o ∈ overlaps cs ↔
      o.earlier < o.later ∧ ∃ c d, cs[o.earlier]? = some c ∧ cs[o.later]? = some d ∧ (∃ k ∈ c.keys, k ∈ d.keys) ∧
        o.shared = c.keys.filter (· ∈ d.keys) := by
  simp only [overlaps, List.mem_flatMap, Prod.exists, List.mem_zipIdx_iff_getElem?, mem_overlapsWith,
    sharedKeys_ne_nil, List.getElem?_take]
  constructor
  · rintro ⟨d, place, placed, rfl, c, before, shared⟩
    split at before
    · rename_i earlier
      exact ⟨earlier, c, d, before, placed, shared⟩
    · cases before
  · rintro ⟨earlier, c, d, before, placed, shared⟩
    exact ⟨d, o.later, placed, rfl, c, (if_pos earlier).trans before, shared⟩

def Overlap.Precedes (o p : Overlap) : Prop := o.later < p.later ∨ o.later = p.later ∧ o.earlier < p.earlier

theorem zipIdx_ascending (cs : List Chord) : cs.zipIdx.Pairwise fun x y => x.2 < y.2 := by
  rw [← List.pairwise_map, List.zipIdx_map_snd]
  exact List.pairwise_lt_range'

theorem overlapsWith_sorted (before : List Chord) (d : Chord) (place : Nat) :
    (overlapsWith before d place).Pairwise Overlap.Precedes := by
  refine List.pairwise_filterMap.2 ((zipIdx_ascending before).imp fun ascending o ho p hp => .inr ?_)
  simp only at ho hp
  split at ho
  · cases ho
  · split at hp
    · cases hp
    · cases ho
      cases hp
      exact ⟨rfl, ascending⟩

/-- No pair comes twice. -/
theorem overlaps_sorted (cs : List Chord) : (overlaps cs).Pairwise Overlap.Precedes := by
  rw [overlaps, List.pairwise_flatMap]
  refine ⟨fun x _ => overlapsWith_sorted _ x.1 x.2, (zipIdx_ascending cs).imp fun ascending o ho p hp => .inl ?_⟩
  rw [(mem_overlapsWith.1 ho).1, (mem_overlapsWith.1 hp).1]
  exact ascending

/-! ## Chords that wait together -/

/-- A rule is what a chord compiles to. -/
def StandsAt (c : Chord) (rules : List Manipulator) (i : Nat) : Prop :=
  ∃ f m, c.compile = .ok f ∧ m ∈ f.manipulators ∧ rules[i]? = some m

theorem overlap_of_less {cs : List Chord} {x y : Nat} {c d : Chord} (hx : cs[x]? = some c) (hy : cs[y]? = some d)
    (less : x < y) {k : Key} (hc : k ∈ c.keys) (hd : k ∈ d.keys) :
    ∃ o ∈ overlaps cs, o.earlier = x ∧ o.later = y ∧ ∀ j, j ∈ c.keys → j ∈ d.keys → j ∈ o.shared := by
  have reported : ⟨x, y, c.keys.filter (· ∈ d.keys)⟩ ∈ overlaps cs :=
    mem_overlaps.2 ⟨less, c, d, hx, hy, ⟨k, hc, hd⟩, rfl⟩
  exact ⟨_, reported, rfl, rfl, fun j hj hj' => List.mem_filter.2 ⟨hj, decide_eq_true hj'⟩⟩

/-- Two chords with a common key are reported, whichever is declared first. -/
theorem overlap_of_shared {cs : List Chord} {x y : Nat} {c d : Chord} (hx : cs[x]? = some c) (hy : cs[y]? = some d)
    (differ : x ≠ y) {k : Key} (hc : k ∈ c.keys) (hd : k ∈ d.keys) :
    ∃ o ∈ overlaps cs, o.earlier = min x y ∧ o.later = max x y ∧ ∀ j, j ∈ c.keys → j ∈ d.keys → j ∈ o.shared := by
  rcases Nat.lt_or_gt_of_ne differ with less | less
  · rw [Nat.min_eq_left (Nat.le_of_lt less), Nat.max_eq_right (Nat.le_of_lt less)]
    exact overlap_of_less hx hy less hc hd
  · rw [Nat.min_eq_right (Nat.le_of_lt less), Nat.max_eq_left (Nat.le_of_lt less)]
    obtain ⟨o, ho, earlier, later, shared⟩ := overlap_of_less hy hx less hd hc
    exact ⟨o, ho, earlier, later, fun j hj hj' => shared j hj' hj⟩

end Chord

namespace Engine

variable {rules : List Manipulator} {b : Buffer}

theorem Buffer.Listing.keys {flags : List Flag} (h : b.Listing rules flags) {i : Nat} (candidate : i ∈ b.candidates)
    {m : Manipulator} (placed : rules[i]? = some m) : ∀ k ∈ b.names, k ∈ m.trigger.keys := by
  rw [h.candidates, takers, List.mem_filter, placed, Option.any_some, takes, Bool.and_eq_true] at candidate
  exact fun k hk => Trigger.mem_of_accepts candidate.2.2 hk

theorem Buffer.Listing.chord_keys {flags : List Flag} (h : b.Listing rules flags) {i : Nat}
    (candidate : i ∈ b.candidates) {c : Chord} (stands : c.StandsAt rules i) : ∀ k ∈ b.names, k ∈ c.keys := by
  obtain ⟨f, m, compiled, member, placed⟩ := stands
  rw [Chord.compile_manipulators compiled, List.mem_singleton] at member
  obtain rfl := member
  exact h.keys candidate placed

end Engine

open Engine

/-- Exactly the pairs of chords with a common key are reported, each once and in order, with the keys of the earlier
chord that the later one has too, in its order. And two chords of the list that are both candidates for the keys of a
buffer, whatever the other rules and the inputs are, are the same one or reported, with all these keys. -/
theorem overlaps_reported (cs : List Chord) :
    (∀ o, o ∈ Chord.overlaps cs ↔
      o.earlier < o.later ∧ ∃ c d, cs[o.earlier]? = some c ∧ cs[o.later]? = some d ∧ (∃ k ∈ c.keys, k ∈ d.keys) ∧
        o.shared = c.keys.filter (· ∈ d.keys)) ∧
    (Chord.overlaps cs).Pairwise (fun o p => o.later < p.later ∨ o.later = p.later ∧ o.earlier < p.earlier) ∧
    ∀ rules inputs b, (run rules inputs).buffer = some b →
      ∀ x y c d i j, cs[x]? = some c → cs[y]? = some d → c.StandsAt rules i → d.StandsAt rules j →
        i ∈ b.candidates → j ∈ b.candidates →
          x = y ∨ ∃ o ∈ Chord.overlaps cs, o.earlier = min x y ∧ o.later = max x y ∧ ∀ k ∈ b.names, k ∈ o.shared := by
  refine ⟨fun o => Chord.mem_overlaps, Chord.overlaps_sorted cs, ?_⟩
  intro rules inputs b held x y c d i j hx hy stands stands' candidate candidate'
  have reached := (reachable_session rules inputs).1.listing b
  rw [session_state] at reached
  obtain ⟨flags, listing⟩ := reached held
  by_cases differ : x = y
  · exact .inl differ
  · obtain ⟨k, hk⟩ := List.exists_mem_of_ne_nil _ listing.opened
    have first := listing.chord_keys candidate stands
    have second := listing.chord_keys candidate' stands'
    obtain ⟨o, ho, earlier, later, shared⟩ := Chord.overlap_of_shared hx hy differ (first k hk) (second k hk)
    exact .inr ⟨o, ho, earlier, later, fun j hj => shared j (first j hj) (second j hj)⟩

/-- Of the three keys of the first chord, the second one has one and the third one has two. -/
def threeChords : List Chord := [
  { keys := [keyB, keyC, keyA], action := .key keyE [], window := 50 },
  { keys := [keyC, keyD], action := .key keyE [], window := 50 },
  { keys := [keyA, keyB], action := .key keyD [], window := 50 }]

example : Chord.overlaps threeChords = [⟨0, 1, [keyC]⟩, ⟨0, 2, [keyB, keyA]⟩] := by decide +kernel

def threeBuffer : Buffer := ⟨[(keyA, 0), (keyB, 10)], [0, 2], ⟨50, 1⟩⟩

theorem threeChords_buffer :
    (run (threeChords.map Chord.compiled) [.down keyA 0, .down keyB 10]).buffer = some threeBuffer := rfl

/-- The first and the third chord wait together for these keys. -/
theorem overlaps_reported_three :
    0 ∈ threeBuffer.candidates ∧ 2 ∈ threeBuffer.candidates ∧
      ∃ o ∈ Chord.overlaps threeChords, o.earlier = 0 ∧ o.later = 2 ∧ ∀ k ∈ threeBuffer.names, k ∈ o.shared := by
  have first : threeChords[0].StandsAt (threeChords.map Chord.compiled) 0 :=
    ⟨_, _, rfl, List.mem_cons_self, rfl⟩
  have third : threeChords[2].StandsAt (threeChords.map Chord.compiled) 2 :=
    ⟨_, _, rfl, List.mem_cons_self, rfl⟩
  have waiting : 0 ∈ threeBuffer.candidates ∧ 2 ∈ threeBuffer.candidates := by decide
  obtain same | reported :=
    (overlaps_reported threeChords).2.2 _ _ _ threeChords_buffer 0 2 _ _ 0 2 rfl rfl first third waiting.1 waiting.2
  · cases same
  · exact ⟨waiting.1, waiting.2, reported⟩

end KeyRules
