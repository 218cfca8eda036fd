import KeyRules.Proofs.ChordWindow
import KeyRules.Proofs.Engine.IsolatedChord
import KeyRules.Proofs.TapFirst

/-!
# Chords in any order

The keys of a chord that no other rule has may go down in any order. Within the window they fire the chord, whatever
other presses and timers are in flight, and nothing that comes later tells in which order they came. With too few keys
in time, each of them goes down on its own.
-/

namespace KeyRules

open Engine

section
variable {rules : List Manipulator} {c : Chord} {f : Fragment} {i : Nat}

theorem Chord.isolated (compiled : c.compile = .ok f) (placed : rules[i]? = some c.compiled)
    (apart : ∀ j m, rules[j]? = some m → j ≠ i → ∀ k ∈ c.keys, k ∉ m.trigger.keys) :
    Isolated rules i c.compiled c.keys (UInt32.ofNat c.window.toNat) := by
  obtain ⟨-, -, -, size, nodup⟩ := c.compile_ok compiled
  exact ⟨placed, rfl, apart, nodup, size⟩

theorem Chord.window_ends (compiled : c.compile = .ok f) {first : Nat}
    (bounded : first + c.window.toNat ≤ lastInstant) :
    after first (UInt32.ofNat c.window.toNat).toNat = first + c.window.toNat := by
  rw [(Chord.compiled_window compiled).2]
  exact Nat.min_eq_left bounded

end

theorem zip_parts {ks : List Key} {later : List Nat} (size : ks.length = later.length + 1) (first : Nat) :
    (ks.zip (first :: later)).map (·.1) = ks ∧ (ks.zip (first :: later)).map (·.2) = first :: later :=
  ⟨List.map_fst_zip (Nat.le_of_eq size), List.map_snd_zip (Nat.le_of_eq size.symm)⟩

/-- Let a chord have keys that no other rule has, and let these be up after any run that holds no key back. Pressed
within the window in any order they fire the chord, once and with no key on its own, and what is sent, set and armed
from then on does not depend on the order. If the window closes before they are all down, or if one of them goes up,
each goes down on its own. -/
theorem isolated_chord_any_order {rules : List Manipulator} {inputs : List Input} {c : Chord} {f : Fragment} {i : Nat}
    (compiled : c.compile = .ok f) (placed : rules[i]? = some c.compiled)
    (apart : ∀ j m, rules[j]? = some m → j ≠ i → ∀ k ∈ c.keys, k ∉ m.trigger.keys)
    (free : (run rules inputs).buffer = none) (up : ∀ k ∈ c.keys, (run rules inputs).isDown k = false)
    {first : Nat} {later : List Nat}
    (gates : (advanceTo rules first (run rules inputs)).gatesOpen c.compiled.gates = true)
    (intime : InTime (run rules inputs).now (first + c.window.toNat) (first :: later))
    (bounded : first + c.window.toNat ≤ lastInstant) :
    (∀ ks : List Key, ks.Perm c.keys → ks.length = later.length + 1 →
      dispatches (run rules (inputs ++ keysDown (ks.zip (first :: later)))).journal =
        dispatches (run rules inputs).journal ++ [(ks, some i)]) ∧
    (∀ ks js : List Key, ks.Perm c.keys → js.Perm c.keys → ks.length = later.length + 1 → ∀ more,
      let s := run rules (inputs ++ keysDown (ks.zip (first :: later)) ++ more)
      let t := run rules (inputs ++ keysDown (js.zip (first :: later)) ++ more)
      s.output = t.output ∧ s.flags = t.flags ∧ s.armed = t.armed) ∧
    ∀ ks rest : List Key, (ks ++ rest).Perm c.keys → rest ≠ [] → ks.length = later.length + 1 → ∀ j,
      (first + c.window.toNat ≤ j.clock (run rules (inputs ++ keysDown (ks.zip (first :: later)))).now ∨
        ∃ k ∈ ks, ∃ t, j = .up k t) →
      ∀ more, dispatches (run rules inputs).journal ++ (ks.map fun k => ([k], none)) <+:
        dispatches (run rules (inputs ++ keysDown (ks.zip (first :: later)) ++ j :: more)).journal := by
  have isolated := Chord.isolated compiled placed apart
  have ready : Ready rules c.compiled c.keys first (run rules inputs) := ⟨free, up, gates⟩
  rw [← Chord.window_ends compiled bounded] at intime ⊢
  refine ⟨?_, ?_, ?_⟩
  · intro ks whole size
    obtain ⟨names, times⟩ := zip_parts size first
    obtain ⟨-, fired⟩ := isolated.completes ready (names.symm ▸ whole) times intime
    rw [names] at fired
    rw [run_continues]
    exact fired
  · intro ks js whole whole' size more
    obtain ⟨names, times⟩ := zip_parts size first
    have size' : js.length = later.length + 1 := whole'.length_eq.trans (whole.length_eq.symm.trans size)
    obtain ⟨names', times'⟩ := zip_parts size' first
    have alike := isolated.alike ready (names.symm ▸ whole) (names'.symm ▸ whole') times times' intime
    have reached := (alike.run more).akin
    rw [run_continues, run_continues, run_continues, run_continues]
    exact ⟨reached.output, reached.flags, reached.armed⟩
  · intro ks rest whole left size j ends more
    obtain ⟨names, times⟩ := zip_parts size first
    rw [run_continues] at ends
    have scattered := isolated.scatters ready left (names.symm ▸ whole) times intime (j := j) (names.symm ▸ ends)
    rw [names, ← run_continues, ← run_append] at scattered
    rw [List.append_cons]
    exact scattered.trans (run_dispatches rules _ more)

def bothKeys : Chord where
  keys := [keyB, keyC]
  action := .key keyD []
  window := 50

theorem bothKeys_compile : bothKeys.compile = .ok ⟨"chord " ++ bothKeys.text, [bothKeys.compiled], none⟩ := rfl

/-- The chord next to the home-row key. -/
def besideHomeRow : List Manipulator := [homeRow.manipulator 200, bothKeys.compiled]

theorem besideHomeRow_apart :
    ∀ j m, besideHomeRow[j]? = some m → j ≠ 1 → ∀ k ∈ bothKeys.keys, k ∉ m.trigger.keys := by
  intro j m hm other
  match j with
  | 0 =>
    obtain rfl := Option.some.inj hm
    decide +kernel
  | 1 => exact absurd rfl other
  | j + 2 => cases hm

/-- While the home-row key is held, its modifiers get armed between the keys of the chord. In either order they go down
in front of what the chord sends, and without the second key the first one goes down on its own. -/
theorem isolated_chord_any_order_armed :
    (run besideHomeRow ([.down keyA 0] ++ keysDown ([keyC, keyB].zip [190, 210]))).armed.length = 1 ∧
      dispatches (run besideHomeRow ([.down keyA 0] ++ keysDown ([keyC, keyB].zip [190, 210]))).journal =
        dispatches (run besideHomeRow [.down keyA 0]).journal ++ [([keyC, keyB], some 1)] ∧
      (run besideHomeRow ([.down keyA 0] ++ keysDown ([keyC, keyB].zip [190, 210]) ++ [.up keyA 300])).output =
        (run besideHomeRow ([.down keyA 0] ++ keysDown ([keyB, keyC].zip [190, 210]) ++ [.up keyA 300])).output ∧
      dispatches (run besideHomeRow [.down keyA 0]).journal ++ [([keyC], none)] <+:
        dispatches (run besideHomeRow ([.down keyA 0] ++ keysDown ([keyC].zip [190]) ++ [.advance 240])).journal := by
  have swapped : [keyC, keyB].Perm bothKeys.keys := .swap keyB keyC []
  have free : (run besideHomeRow [.down keyA 0]).buffer = none := rfl
  have up : ∀ k ∈ bothKeys.keys, (run besideHomeRow [.down keyA 0]).isDown k = false := by decide +kernel
  have intime : InTime (run besideHomeRow [.down keyA 0]).now (190 + bothKeys.window.toNat) [190, 210] :=
    ⟨by decide +kernel, by decide +kernel⟩
  have soon : InTime (run besideHomeRow [.down keyA 0]).now (190 + bothKeys.window.toNat) [190] :=
    ⟨by decide +kernel, by decide +kernel⟩
  obtain ⟨fires, alike, -⟩ := isolated_chord_any_order bothKeys_compile rfl besideHomeRow_apart free up rfl intime
    (by decide +kernel)
  obtain ⟨-, -, scatters⟩ := isolated_chord_any_order bothKeys_compile rfl besideHomeRow_apart free up rfl soon
    (by decide +kernel)
  refine ⟨by decide +kernel, fires _ swapped rfl, (alike _ _ swapped (.refl _) rfl _).1, ?_⟩
  exact scatters [keyC] [keyB] swapped (List.cons_ne_nil _ _) rfl (.advance 240) (.inl (by decide +kernel)) []

end KeyRules
