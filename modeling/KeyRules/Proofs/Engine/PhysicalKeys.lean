import KeyRules.Proofs.Engine.Calm
import KeyRules.Proofs.Engine.OwnKeys

/-!
# Physical keys

A key is pressed if its last event was a key-down. Every pressed key is held by exactly one press or by the buffer, and
nothing else is held (`keys_tracked`). So a key-down of a pressed key and a key-up of any other one let time pass and
do no more.
-/

namespace KeyRules.Engine

/-- Where an input moves a key: down, up or nowhere. -/
def Input.moves? (k : Key) : Input → Option Bool
  | .down j _ => if j = k then some true else none
  | .up j _ => if j = k then some false else none
  | .advance _ => none
  | .take => none

/-- The last event of the key was a key-down. -/
def isPressed (inputs : List Input) (k : Key) : Bool := (inputs.filterMap (Input.moves? k)).getLast? == some true

theorem isPressed_append (inputs : List Input) (i : Input) (k : Key) :
    isPressed (inputs ++ [i]) k = (i.moves? k).getD (isPressed inputs k) := by
  cases h : i.moves? k with
  | none => simp [isPressed, h]
  | some isDown => cases isDown <;> simp [isPressed, h]

theorem mem_pressDown {down : List Key} {j k : Key} : k ∈ pressDown down j ↔ j = k ∨ k ∈ down := by
  unfold pressDown
  split
  · rename_i hj
    refine ⟨.inr, fun h => h.elim (fun he => he ▸ hj) fun h => h⟩
  · rw [List.mem_append, List.mem_singleton, or_comm, eq_comm]

section
variable (rules : List Manipulator)

theorem mem_session_down (inputs : List Input) (k : Key) :
    k ∈ (session rules inputs).down ↔ isPressed inputs k = true := by
  induction inputs using List.reverseRecOn with
  | nil => exact ⟨fun h => (List.not_mem_nil h).elim, fun h => (Bool.false_ne_true h).elim⟩
  | append_singleton inputs i ih =>
    rw [session_append, isPressed_append]
    cases i with
    | down j instant =>
      show k ∈ pressDown (session rules inputs).down j ↔ _
      rw [mem_pressDown, ih, Input.moves?]
      by_cases h : j = k <;> simp [h]
    | up j instant =>
      show k ∈ (session rules inputs).down.filter (· != j) ↔ _
      rw [List.mem_filter, ih, Input.moves?, bne_iff_ne]
      by_cases h : j = k
      · simp [h]
      · simp [h, Ne.symm h]
    | advance instant => exact ih
    | take => exact ih

variable {rules}

theorem holder_eq_none {s : State} {k : Key} (h : k ∉ s.heldLists.flatten) : s.holder? k = none := by
  refine List.find?_eq_none.2 fun p hp hk => h ?_
  exact List.mem_flatten.2 ⟨p.held, List.mem_map_of_mem (List.mem_reverse.1 hp), List.contains_iff_mem.1 hk⟩

theorem flushHolding_other {s : State} {k : Key} (h : k ∉ s.buffered) : flushHolding rules k s = s := by
  cases hb : s.buffer with
  | none => exact flushHolding_free hb k
  | some b =>
    unfold flushHolding
    simp only [hb]
    refine if_neg fun hk => h ?_
    obtain ⟨j, hj, he⟩ := List.any_eq_true.1 hk
    rw [State.buffered_of_some hb]
    exact List.mem_map.2 ⟨j, hj, beq_iff_eq.1 he⟩

/-- Between two inputs the presses and the buffer own the pressed keys. -/
theorem Reachable.owned {x : Session} (hx : Reachable rules x) (idle : x.waiting = []) :
    (x.state.heldLists.flatten ++ x.state.buffered).Perm x.down := by
  have owned := hx.tracked.owned
  rwa [Session.waitingKeys, idle, List.map_nil, List.append_nil] at owned

theorem keyDown_pressed {s : State} {k : Key} {instant : Nat}
    (held : k ∈ (advanceTo rules instant s).heldLists.flatten ++ (advanceTo rules instant s).buffered) :
    keyDown rules k instant s = (advanceTo rules instant s).note (.repeatedDown k) := by
  unfold keyDown
  simp only
  rw [(State.isDown_iff _ k).2 held]
  rfl

theorem keyUp_unpressed {s : State} {k : Key} {instant : Nat}
    (free : k ∉ (advanceTo rules instant s).heldLists.flatten ++ (advanceTo rules instant s).buffered) :
    keyUp rules k instant s = (advanceTo rules instant s).note (.strayUp k) := by
  rw [List.mem_append, not_or] at free
  unfold keyUp
  simp only
  rw [flushHolding_other free.2, release_none rules (holder_eq_none free.1)]

end

/-- In every state of a run each pressed key is held exactly once, by a press or by the buffer, no other key is, and
every press holds a key. A key-down of a pressed key and a key-up of a key that is not pressed have the effect of the
time that passes, with one line of the journal that says so. -/
theorem keys_tracked (rules : List Manipulator) (inputs : List Input) :
    (∀ k, ((run rules inputs).heldLists.flatten ++ (run rules inputs).buffered).count k =
      if isPressed inputs k then 1 else 0) ∧
    (∀ p ∈ (run rules inputs).presses, p.held ≠ []) ∧
    (∀ k instant, isPressed inputs k = true →
      run rules (inputs ++ [.down k instant]) =
        (run rules (inputs ++ [.advance instant])).note (.repeatedDown k)) ∧
    ∀ k instant, isPressed inputs k = false →
      run rules (inputs ++ [.up k instant]) = (run rules (inputs ++ [.advance instant])).note (.strayUp k) := by
  obtain ⟨hx, idle⟩ := reachable_session rules inputs
  have held_iff : ∀ instant k, k ∈ (advanceTo rules instant (run rules inputs)).heldLists.flatten ++
      (advanceTo rules instant (run rules inputs)).buffered ↔ isPressed inputs k = true := by
    intro instant k
    have owned := (hx.advanceTo idle instant).owned idle
    rw [session_state] at owned
    rw [owned.mem_iff, mem_session_down]
  have owned := hx.owned idle
  rw [session_state] at owned
  refine ⟨fun k => ?_, fun p hp => ?_, fun k instant pressed => ?_, fun k instant unpressed => ?_⟩
  · rw [owned.count_eq, hx.tracked.down_nodup.count]
    simp only [mem_session_down]
  · rw [← session_state] at hp
    exact hx.tracked.holds hp
  · rw [run_append, run_append]
    exact keyDown_pressed ((held_iff instant k).2 pressed)
  · rw [run_append, run_append]
    refine keyUp_unpressed fun held => ?_
    rw [(held_iff instant k).1 held] at unpressed
    cases unpressed

end KeyRules.Engine
