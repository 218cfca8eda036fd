import KeyRules.Proofs.ChordWindow
import KeyRules.Proofs.Engine.ChordBuffer

/-!
# Complete chords that wait

The keys of a chord wait in the buffer while a larger chord that was declared earlier may still be completed. If the
window closes then, the smaller chord fires. If one of its keys goes up first, or a key that no chord shares with them
all goes down, the keys go down each on its own, as if the chord had never been complete (`chord_ending`,
`chord_lost_on_release`).
-/

namespace KeyRules

open Engine

theorem Chord.compileAll_rules {r : RuleSet} {cs : List Chord}
    (compiled : Chord.compileAll cs = .ok (r.groups.flatMap (·.fragments))) :
    r.manipulators = cs.map Chord.compiled ∧ ∀ c ∈ cs, ∃ f, c.compile = .ok f := by
  obtain ⟨hm, hall⟩ := mapM_manipulators Chord.compile_manipulators compiled
  exact ⟨(RuleSet.manipulators_eq r).trans hm, fun c hc => (hall c hc).imp fun _ h => h.1⟩

theorem Chord.keySets_compiled (cs : List Chord) : keySets (cs.map Chord.compiled) = cs.map (·.keys) := by
  rw [keySets, List.map_map]
  rfl

theorem Engine.firstOf_some {cs : List Chord} {ks : List Key} {i : Nat} (h : firstOf (cs.map (·.keys)) ks = some i) :
    ∃ c, cs[i]? = some c ∧ c.keys.Perm ks := by
  obtain ⟨hi, hp, -⟩ := List.findIdx?_eq_some_iff_getElem.1 h
  rw [List.length_map] at hi
  rw [List.getElem_map, List.isPerm_iff] at hp
  exact ⟨cs[i], List.getElem?_eq_getElem hi, hp⟩

/-- What fires is a chord of just the keys that go down, those of the buffer among them. -/
theorem Engine.Buffer.fires_some {cs : List Chord} {b : Buffer} {now : Nat} {last : Input} {ks : List Key} {i : Nat}
    (h : b.fires (cs.map (·.keys)) now last = some (ks, i)) :
    ∃ c, cs[i]? = some c ∧ c.keys.Perm ks ∧ b.names ⊆ ks := by
  have first : ∀ {all : List Key}, (firstOf (cs.map (·.keys)) all).map (all, ·) = some (ks, i) →
      ∃ c, cs[i]? = some c ∧ c.keys.Perm ks ∧ all = ks := fun ha => by
    obtain ⟨j, hj, he⟩ := Option.map_eq_some_iff.1 ha
    obtain ⟨rfl, rfl⟩ := Prod.mk.inj he
    obtain ⟨c, hc, hp⟩ := firstOf_some hj
    exact ⟨c, hc, hp, rfl⟩
  unfold fires at h
  split at h
  · obtain ⟨c, hc, hp, he⟩ := first h
    exact ⟨c, hc, hp, he ▸ List.Subset.refl _⟩
  · split at h
    · obtain ⟨c, hc, hp, he⟩ := first h
      exact ⟨c, hc, hp, he ▸ List.subset_append_left _ _⟩
    · cases h

/-- The keys of a buffer wait, and they are all keys of some chord. The first input that begins a press lets a chord of
just the keys at hand fire where `Buffer.fires` finds one, and else each of the keys goes down on its own. If no key
has joined and the window closes, it finds one. -/
theorem chord_ending {r : RuleSet} {cs : List Chord}
    (compiled : Chord.compileAll cs = .ok (r.groups.flatMap (·.fragments))) (ungated : ∀ e ∈ cs, e.gate = none)
    {inputs more : List Input} {last : Input} {b : Buffer} (held : (run r.manipulators inputs).buffer = some b)
    {c : Chord} (member : c ∈ cs) (complete : ∀ k, k ∈ b.names ↔ k ∈ c.keys)
    (quiet : dispatches (run r.manipulators (inputs ++ more)).journal = dispatches (run r.manipulators inputs).journal)
    (begins : dispatches (run r.manipulators (inputs ++ more ++ [last])).journal ≠
      dispatches (run r.manipulators inputs).journal) :
    ∃ b' fired later, (run r.manipulators (inputs ++ more)).buffer = some b' ∧ b.keys <+: b'.keys ∧
      b'.fires (cs.map (·.keys)) (run r.manipulators (inputs ++ more)).now last = fired ∧
      dispatches (run r.manipulators (inputs ++ more ++ [last])).journal =
        dispatches (run r.manipulators inputs).journal ++ b'.ending fired ++ later ∧
      (∀ ks i, fired = some (ks, i) → ∃ e, cs[i]? = some e ∧ e.keys.Perm ks ∧ b.names ⊆ ks) ∧
      (b'.keys = b.keys → b'.deadline.instant ≤ last.clock (run r.manipulators (inputs ++ more)).now →
        fired.isSome = true) := by
  obtain ⟨hm, compiles⟩ := Chord.compileAll_rules compiled
  have h : ChordsOnly r.manipulators := hm ▸ chordsOnly_compiled compiles ungated
  have sets : keySets r.manipulators = cs.map (·.keys) := hm ▸ Chord.keySets_compiled cs
  obtain ⟨b', later, held', kept, ended⟩ := h.run_ending held quiet begins
  rw [sets] at ended
  refine ⟨b', _, later, held', kept, rfl, ended, fun ks i fires => ?_, fun alone due => ?_⟩
  · obtain ⟨e, he, hp, hs⟩ := Buffer.fires_some fires
    exact ⟨e, he, hp, List.Subset.trans (kept.sublist.map _).subset hs⟩
  · obtain ⟨f, hf⟩ := compiles c member
    obtain ⟨-, -, -, -, nodup⟩ := c.compile_ok hf
    have hp : c.keys.Perm b'.names := by
      rw [Buffer.names, alone]
      exact (List.perm_ext_iff_of_nodup nodup (h.run_gathering held).2.distinct).2 fun k => (complete k).symm
    rw [Buffer.fires_due due, Option.isSome_map, firstOf, List.findIdx?_isSome, List.any_map, List.any_eq_true]
    exact ⟨c, member, List.isPerm_iff.2 hp⟩

def largerFirst : List Chord := [
  { keys := [keyA, keyB, keyC], action := .key keyC [], window := 50 },
  { keys := [keyA, keyB], action := .key keyD [], window := 50 }]

def largerFirstSet : RuleSet := ⟨[⟨"chords", largerFirst.map fun c => ⟨"chord " ++ c.text, [c.compiled], none⟩⟩]⟩

theorem largerFirstSet_compile :
    Chord.compileAll largerFirst = .ok (largerFirstSet.groups.flatMap (·.fragments)) := rfl

def smallerPressed : List Input := [.down keyA 0, .down keyB 10]

def smallerBuffer : Buffer := ⟨[(keyA, 0), (keyB, 10)], [0, 1], ⟨50, 1⟩⟩

theorem smallerPressed_buffer : (run largerFirstSet.manipulators smallerPressed).buffer = some smallerBuffer := rfl

/-- When the window closes it fires. -/
theorem chord_ending_fires :
    (run largerFirstSet.manipulators smallerPressed).buffer = some smallerBuffer ∧
    dispatches (run largerFirstSet.manipulators (smallerPressed ++ [.advance 20])).journal = [] ∧
    dispatches (run largerFirstSet.manipulators (smallerPressed ++ [.advance 20] ++ [.advance 50])).journal =
      [([keyA, keyB], some 1)] ∧
    ∃ b' fired later, (run largerFirstSet.manipulators (smallerPressed ++ [.advance 20])).buffer = some b' ∧
      smallerBuffer.keys <+: b'.keys ∧
      b'.fires (largerFirst.map (·.keys)) (run largerFirstSet.manipulators (smallerPressed ++ [.advance 20])).now
        (.advance 50) = fired ∧
      [([keyA, keyB], some 1)] = b'.ending fired ++ later := by
  have fires : dispatches (run largerFirstSet.manipulators (smallerPressed ++ [.advance 20] ++ [.advance 50])).journal =
      [([keyA, keyB], some 1)] := rfl
  have quiet : dispatches (run largerFirstSet.manipulators (smallerPressed ++ [.advance 20])).journal =
      dispatches (run largerFirstSet.manipulators smallerPressed).journal := rfl
  have begins :
      dispatches (run largerFirstSet.manipulators (smallerPressed ++ [.advance 20] ++ [.advance 50])).journal ≠
        dispatches (run largerFirstSet.manipulators smallerPressed).journal := by
    rw [fires]
    exact List.cons_ne_nil _ _
  obtain ⟨b', fired, later, held, kept, found, ended, -, -⟩ :=
    chord_ending largerFirstSet_compile (by simp [largerFirst]) smallerPressed_buffer (c := largerFirst[1])
      (by simp [largerFirst]) (by simp [smallerBuffer, largerFirst, Buffer.names]) quiet begins
  exact ⟨smallerPressed_buffer, quiet, fires, b', fired, later, held, kept, found, fires ▸ ended⟩

/-- But it is lost if one of its keys goes up first. -/
theorem chord_lost_on_release :
    ¬∀ (r : RuleSet) (cs : List Chord) (inputs more : List Input) (last : Input) (b : Buffer) (c : Chord),
      Chord.compileAll cs = .ok (r.groups.flatMap (·.fragments)) → (∀ e ∈ cs, e.gate = none) →
      (run r.manipulators inputs).buffer = some b → c ∈ cs → (∀ k, k ∈ b.names ↔ k ∈ c.keys) →
      dispatches (run r.manipulators (inputs ++ more)).journal = dispatches (run r.manipulators inputs).journal →
      dispatches (run r.manipulators (inputs ++ more ++ [last])).journal ≠
        dispatches (run r.manipulators inputs).journal →
      ∃ ks i e later, cs[i]? = some e ∧ b.names ⊆ ks ∧
        dispatches (run r.manipulators (inputs ++ more ++ [last])).journal =
          dispatches (run r.manipulators inputs).journal ++ (ks, some i) :: later := by
  intro h
  have alone : dispatches (run largerFirstSet.manipulators (smallerPressed ++ [] ++ [.up keyA 20])).journal =
      [([keyA], none), ([keyB], none)] := rfl
  obtain ⟨ks, i, e, later, -, -, fires⟩ :=
    h largerFirstSet largerFirst smallerPressed [] (.up keyA 20) smallerBuffer largerFirst[1] largerFirstSet_compile
      (by simp [largerFirst]) smallerPressed_buffer (by simp [largerFirst])
      (by simp [smallerBuffer, largerFirst, Buffer.names]) rfl (by rw [alone]; exact List.cons_ne_nil _ _)
  rw [alone] at fires
  cases fires

end KeyRules
