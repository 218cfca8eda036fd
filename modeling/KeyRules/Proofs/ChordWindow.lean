import KeyRules.Proofs.Compiled
import KeyRules.Proofs.Engine.ChordRules

/-!
# The window of two keys

Two keys of one chord fire it if the second goes down within the window that the first one opened. That window is the
one of the first chord that has the first key. So the order of the keys counts, and a chord declared earlier can cut
the window of a later one short or draw it out.
-/

namespace KeyRules

open Engine

/-! ## Rule lists of chords -/

theorem chordsOnly_compiled {cs : List Chord} (compiles : ∀ c ∈ cs, ∃ f, c.compile = .ok f)
    (ungated : ∀ c ∈ cs, c.gate = none) : ChordsOnly (cs.map Chord.compiled) := by
  have each : ∀ m ∈ cs.map Chord.compiled, ∃ c : Chord, 2 ≤ c.keys.length ∧ c.gate = none ∧ m = c.compiled := by
    intro m hm
    obtain ⟨c, hc, rfl⟩ := List.mem_map.1 hm
    obtain ⟨f, hf⟩ := compiles c hc
    obtain ⟨window, -, -, size, -⟩ := c.compile_ok hf
    exact ⟨c, size, ungated c hc, rfl⟩
  constructor
  case chord =>
    intro m hm
    obtain ⟨c, -, -, rfl⟩ := each m hm
    exact ⟨c.keys, _, rfl⟩
  case size =>
    intro m hm
    obtain ⟨c, size, -, rfl⟩ := each m hm
    exact size
  case ungated =>
    intro m hm
    obtain ⟨c, -, gate, rfl⟩ := each m hm
    show TapHold.gatesOn c.gate = []
    rw [gate]
    rfl
  case undelayed =>
    intro m hm
    obtain ⟨c, -, -, rfl⟩ := each m hm
    rfl
  case untimed =>
    intro m hm
    obtain ⟨c, -, -, rfl⟩ := each m hm
    rfl

theorem Chord.compiled_window {c : Chord} {f : Fragment} (h : c.compile = .ok f) :
    c.compiled.trigger.window? = some (UInt32.ofNat c.window.toNat) ∧
      (UInt32.ofNat c.window.toNat).toNat = c.window.toNat := by
  obtain ⟨window, -, ht, -, -⟩ := c.compile_ok h
  exact ⟨rfl, UInt32.toNat_ofNat_of_lt' (TimeSetting.check_ok ht).2.2⟩

theorem Chord.find_compiled (cs : List Chord) (k : Key) :
    ((cs.map Chord.compiled).find? fun m => m.trigger.keys.contains k) =
      (cs.find? fun c => c.keys.contains k).map Chord.compiled := by
  rw [List.find?_map]
  rfl

theorem Chord.first_having {cs : List Chord} (compiles : ∀ e ∈ cs, ∃ f, e.compile = .ok f) {c : Chord} (hc : c ∈ cs)
    {k : Key} (hk : k ∈ c.keys) :
    ∃ e ∈ cs, (cs.find? fun e => e.keys.contains k) = some e ∧
      ((cs.map Chord.compiled).find? fun m => m.trigger.keys.contains k) = some e.compiled ∧
      ∃ w, e.compiled.trigger.window? = some w ∧ w.toNat = e.window.toNat := by
  have hs : (cs.find? fun e => e.keys.contains k).isSome = true :=
    List.find?_isSome.2 ⟨c, hc, List.contains_iff_mem.2 hk⟩
  obtain ⟨e, he⟩ := Option.isSome_iff_exists.1 hs
  have hm := List.mem_of_find?_eq_some he
  obtain ⟨f, hf⟩ := compiles e hm
  refine ⟨e, hm, he, ?_, _, Chord.compiled_window hf⟩
  rw [Chord.find_compiled, he]
  rfl

theorem length_of_pair {ks : List Key} {a b : Key} (hn : ks.Nodup) (distinct : a ≠ b)
    (pair : ∀ k, k ∈ ks ↔ k = a ∨ k = b) : ks.length = 2 := by
  have hp : ks.Perm [a, b] := by
    refine (List.perm_ext_iff_of_nodup hn (by simpa using distinct)).2 fun k => ?_
    rw [pair k, List.mem_pair]
  exact hp.length_eq

/-! ## Two keys in a row -/

section
variable {rules : List Manipulator} {a b : Key} {t d last : Nat} {m e : Manipulator} {w v : Millis}

/-- The first key is held back for the window of the first chord that has it. -/
theorem Engine.ChordsOnly.one_key (h : ChordsOnly rules)
    (first : (rules.find? fun m => m.trigger.keys.contains a) = some e) (width : e.trigger.window? = some w) (t : Nat) :
    ∃ n, (keyDown rules a t {}).buffer = some ⟨[(a, t)], having rules a, ⟨after t w.toNat, n⟩⟩ ∧
      (keyDown rules a t {}).timers = [] ∧ (keyDown rules a t {}).now = t ∧
      (keyDown rules a t {}).heldLists = [] ∧ dispatches (keyDown rules a t {}).journal = [] := by
  have ha : advanceTo rules t {} = State.tick {} t :=
    advanceTo_quiet rfl (Nat.zero_le t) fun b hb => by cases hb
  have hn : (State.tick {} t).now = t := State.tick_now (Nat.zero_le t)
  have free : (State.tick {} t).buffer = none := State.tick_buffer {} t
  have up : (advanceTo rules t {}).isDown a = false := by
    rw [ha]
    refine State.isDown_false ?_ ?_
    · rw [State.tick_heldLists]
      exact List.not_mem_nil
    · rw [State.buffered_of_none free]
      exact List.not_mem_nil
  obtain ⟨n, opened⟩ := h.accept_opens free (State.tick_timers {} t) first width
  rw [keyDown_up up, ha]
  rw [hn, State.tick_heldLists, tick_dispatches] at opened
  exact ⟨n, opened⟩

/-- Within the window of the first key, the second one completes the chord of both. -/
theorem Engine.ChordsOnly.two_in_time (h : ChordsOnly rules) (distinct : a ≠ b)
    (first : (rules.find? fun m => m.trigger.keys.contains a) = some e) (width : e.trigger.window? = some w)
    {i : Nat} (placed : rules[i]? = some m) (two : m.trigger.keys.length = 2)
    (both : a ∈ m.trigger.keys ∧ b ∈ m.trigger.keys)
    (only : ∀ l e, rules[l]? = some e → a ∈ e.trigger.keys → b ∈ e.trigger.keys → l = i)
    (early : d < w.toNat) (bounded : t + d < lastInstant) (past : t + d ≤ last) :
    dispatches (run rules [.down a t, .down b (t + d), .advance last]).journal = [([a, b], some i)] := by
  obtain ⟨n, held, calm, now, lists, begun⟩ := h.one_key first width t
  have before : ∀ c, (keyDown rules a t {}).buffer = some c → t + d < c.deadline.instant := by
    intro c hc
    rw [held, Option.some.injEq] at hc
    subst hc
    show t + d < min (t + w.toNat) lastInstant
    omega
  have ha : advanceTo rules (t + d) (keyDown rules a t {}) = (keyDown rules a t {}).tick (t + d) :=
    advanceTo_quiet calm (by omega) before
  have held' := ((keyDown rules a t {}).tick_buffer (t + d)).trans held
  have up : (advanceTo rules (t + d) (keyDown rules a t {})).isDown b = false := by
    rw [ha]
    refine State.isDown_false ?_ ?_
    · rw [State.tick_heldLists, lists]
      exact List.not_mem_nil
    · rw [State.buffered_of_some held']
      exact fun hm => distinct (List.mem_singleton.1 hm).symm
  obtain ⟨free, calm, now', begun'⟩ := h.accept_joins held' placed two both only
  rw [State.tick_now (by omega)] at now'
  have hl : advanceTo rules last (accept rules b ((keyDown rules a t {}).tick (t + d))) =
      (accept rules b ((keyDown rules a t {}).tick (t + d))).tick last := by
    refine advanceTo_quiet calm (by omega) fun c hc => ?_
    rw [free] at hc
    cases hc
  simp only [run, List.foldl_cons, List.foldl_nil, step]
  rw [keyDown_up up, ha, hl, tick_dispatches, begun', tick_dispatches, begun]
  rfl

/-- After it, both keys go down on their own. -/
theorem Engine.ChordsOnly.two_too_late (h : ChordsOnly rules) (distinct : a ≠ b)
    (first : (rules.find? fun m => m.trigger.keys.contains a) = some e) (width : e.trigger.window? = some w)
    (second : (rules.find? fun m => m.trigger.keys.contains b) = some m) (width' : m.trigger.window? = some v)
    (lapsed : w.toNat ≤ d) (past : t + d + v.toNat ≤ last) :
    dispatches (run rules [.down a t, .down b (t + d), .advance last]).journal = [([a], none), ([b], none)] := by
  have small : ∀ k, ∀ i ∈ having rules k, i < rules.length := by
    intro k i hi
    obtain ⟨m, hm, -⟩ := mem_having.1 hi
    exact (List.getElem?_eq_some_iff.1 hm).1
  obtain ⟨n, held, calm, now, lists, begun⟩ := h.one_key first width t
  obtain ⟨free, calm, now, lists', begun'⟩ :=
    h.lapse held rfl calm (small a) (t + d) (Nat.le_trans (Nat.min_le_left _ _) (by omega)) (by omega)
  have up : (advanceTo rules (t + d) (keyDown rules a t {})).isDown b = false := by
    refine State.isDown_false ?_ ?_
    · rw [lists', lists]
      simpa using distinct.symm
    · rw [State.buffered_of_none free]
      exact List.not_mem_nil
  obtain ⟨n', held, calm, now', -, opened⟩ := h.accept_opens free calm second width'
  rw [now] at held now'
  obtain ⟨-, -, -, -, begun''⟩ :=
    h.lapse held rfl calm (small b) last (Nat.le_trans (Nat.min_le_left _ _) past) (by omega)
  simp only [run, List.foldl_cons, List.foldl_nil, step]
  rw [keyDown_up up, begun'', opened, begun', begun]
  rfl

end

/-! ## Two keys of one chord -/

/-- Where just one chord has both keys, and no others, they fire it exactly if the second one goes down within the
window of the first chord that has the first one. -/
theorem chord_fires_in_first_window {r : RuleSet} {cs : List Chord}
    (compiled : Chord.compileAll cs = .ok (r.groups.flatMap (·.fragments))) (ungated : ∀ e ∈ cs, e.gate = none)
    {a b : Key} (distinct : a ≠ b) {i : Nat} {c : Chord} (placed : cs[i]? = some c)
    (pair : ∀ k, k ∈ c.keys ↔ k = a ∨ k = b)
    (only : ∀ l e, cs[l]? = some e → a ∈ e.keys → b ∈ e.keys → l = i) {t d last : Nat}
    (late : ∀ e ∈ cs, t + d + e.window.toNat ≤ last) (bounded : last ≤ lastInstant) :
    ∃ first, (cs.find? fun e => e.keys.contains a) = some first ∧
      dispatches (run r.manipulators [.down a t, .down b (t + d), .advance last]).journal =
        if d < first.window.toNat then [([a, b], some i)] else [([a], none), ([b], none)] := by
  obtain ⟨hm, hall⟩ := mapM_manipulators Chord.compile_manipulators compiled
  rw [← RuleSet.manipulators_eq] at hm
  have compiles : ∀ e ∈ cs, ∃ f, e.compile = .ok f := fun e he => (hall e he).imp fun _ h => h.1
  have hx : ChordsOnly r.manipulators := hm ▸ chordsOnly_compiled compiles ungated
  have hc : c ∈ cs := List.mem_of_getElem? placed
  obtain ⟨f, hf⟩ := compiles c hc
  obtain ⟨first, he, hfirst, ha, w, width, exact⟩ := Chord.first_having compiles hc ((pair a).2 (.inl rfl))
  obtain ⟨second, hs, -, hb, v, width', exact'⟩ := Chord.first_having compiles hc ((pair b).2 (.inr rfl))
  rw [← hm] at ha hb
  refine ⟨first, hfirst, ?_⟩
  have := late first he
  have := late second hs
  by_cases hd : d < first.window.toNat
  · rw [if_pos hd]
    obtain ⟨-, -, -, -, nodup⟩ := c.compile_ok hf
    refine hx.two_in_time distinct ha width (i := i) (m := c.compiled) ?_ ?_ ?_ ?_ ?_ ?_ ?_
    · rw [hm, List.getElem?_map, placed]
      rfl
    · exact length_of_pair nodup distinct pair
    · exact ⟨(pair a).2 (.inl rfl), (pair b).2 (.inr rfl)⟩
    · intro l e hl hk hj
      rw [hm, List.getElem?_map, Option.map_eq_some_iff] at hl
      obtain ⟨e, hl, rfl⟩ := hl
      exact only l e hl hk hj
    · omega
    · omega
    · omega
  · rw [if_neg hd]
    refine hx.two_too_late distinct ha width hb width' ?_ ?_
    · omega
    · omega

/-- A quick chord of `a` and `c`, and after it a slow one of `a` and `b`. -/
def sharedKey : List Chord := [
  { keys := [keyA, keyC], action := .key keyC [], window := 20 },
  { keys := [keyA, keyB], action := .key keyB [], window := 100 }]

def sharedKeySet : RuleSet := ⟨[⟨"chords", sharedKey.map fun c => ⟨"chord " ++ c.text, [c.compiled], none⟩⟩]⟩

theorem sharedKeySet_compile :
    Chord.compileAll sharedKey = .ok (sharedKeySet.groups.flatMap (·.fragments)) := rfl

theorem sharedKey_only :
    ∀ l e, sharedKey[l]? = some e → keyA ∈ e.keys → keyB ∈ e.keys → l = 1 := by
  intro l e he _ hb
  match l with
  | 0 =>
    obtain rfl := Option.some.inj he
    revert hb
    decide +kernel
  | 1 => rfl
  | l + 2 => cases he

/-- If `b` follows `a` after 50 ms, the quick chord has let `a` go already. -/
theorem chord_fires_in_first_window_cut :
    dispatches (run sharedKeySet.manipulators [.down keyA 0, .down keyB 50, .advance 1000]).journal =
        [([keyA], none), ([keyB], none)] ∧
    ∃ first, (sharedKey.find? fun e => e.keys.contains keyA) = some first ∧
      dispatches (run sharedKeySet.manipulators [.down keyA 0, .down keyB 50, .advance 1000]).journal =
        if 50 < first.window.toNat then [([keyA, keyB], some 1)] else [([keyA], none), ([keyB], none)] :=
  ⟨rfl, chord_fires_in_first_window (t := 0) (d := 50) sharedKeySet_compile (by simp [sharedKey])
    (by decide +kernel) rfl (by simp) sharedKey_only (by simp [sharedKey]) (by decide +kernel)⟩

/-- So a chord of two keys does not always obey its own window. -/
theorem chord_window_cut :
    ¬∀ (r : RuleSet) (cs : List Chord) (a b : Key) (i : Nat) (c : Chord) (t d last : Nat),
      Chord.compileAll cs = .ok (r.groups.flatMap (·.fragments)) → (∀ e ∈ cs, e.gate = none) → a ≠ b →
      cs[i]? = some c → (∀ k, k ∈ c.keys ↔ k = a ∨ k = b) →
      (∀ l e, cs[l]? = some e → a ∈ e.keys → b ∈ e.keys → l = i) →
      (∀ e ∈ cs, t + d + e.window.toNat ≤ last) → last ≤ lastInstant →
      (some i ∈ (dispatches (run r.manipulators [.down a t, .down b (t + d), .advance last]).journal).map (·.2) ↔
        d < c.window.toNat) := by
  intro h
  have hs := h sharedKeySet sharedKey keyA keyB 1 _ 0 50 1000 sharedKeySet_compile (by simp [sharedKey])
    (by decide +kernel) rfl (by simp) sharedKey_only (by simp [sharedKey]) (by decide +kernel)
  revert hs
  decide +kernel

end KeyRules
