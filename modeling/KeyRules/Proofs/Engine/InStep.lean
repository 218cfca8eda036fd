import KeyRules.Proofs.Engine.Akin
import KeyRules.Proofs.Engine.Calm
import KeyRules.Proofs.Engine.Precedence

/-!
# Engines in step

Two engines, each with its own rule list, run on the same inputs. Their rule lists choose alike if they find the same
rule for a key, and if buffers that correspond are narrowed, completed and kept waiting alike. Then states that are akin
and whose buffers correspond stay so whatever comes in (`InStep.run`), so nobody can tell the engines apart.
-/

namespace KeyRules.Engine

section
variable (rules others : List Manipulator)

/-- The candidates of a buffer that still fit when a further key joins. -/
def fitting (b : Buffer) (k : Key) : List Nat :=
  b.candidates.filter fun i => rules[i]?.any fun m => m.trigger.accepts (b.keys.map (·.1) ++ [k])

def Buffer.joined (b : Buffer) (k : Key) (instant : Nat) : Buffer :=
  { b with keys := b.keys ++ [(k, instant)], candidates := fitting rules b k }

/-- Two rule lists decide alike, as far as buffers that correspond (`R`) tell. -/
structure ChooseAlike (R : Buffer → Buffer → Prop) : Prop where
  found : ∀ {s t : State}, s.flags = t.flags → ∀ k simultaneous,
    Option.Rel (fun i j => rules[i]? = others[j]?) (findRule rules s k simultaneous) (findRule others t k simultaneous)
  opened : ∀ {s t : State}, s.flags = t.flags → ∀ k instant deadline,
    R ⟨[(k, instant)], openCandidates rules s k, deadline⟩ ⟨[(k, instant)], openCandidates others t k, deadline⟩
  keys : ∀ {b c}, R b c → b.keys = c.keys
  deadline : ∀ {b c}, R b c → b.deadline = c.deadline
  fits : ∀ {b c}, R b c → ∀ k, (fitting rules b k).isEmpty = (fitting others c k).isEmpty
  joined : ∀ {b c}, R b c → ∀ k instant, R (b.joined rules k instant) (c.joined others k instant)
  complete : ∀ {b c}, R b c →
    Option.Rel (fun i j => rules[i]? = others[j]? ∧ isWaiting rules b i = isWaiting others c j)
      (complete? rules b) (complete? others c)

/-- Akin states with buffers that correspond. -/
structure InStep (R : Buffer → Buffer → Prop) (s t : State) : Prop where
  akin : Akin rules others s t
  buffer : Option.Rel R s.buffer t.buffer

end

section
variable {rules others : List Manipulator} {R : Buffer → Buffer → Prop} {s t : State}

theorem InStep.note (h : InStep rules others R s t) (l l' : Incident) : InStep rules others R (s.note l) (t.note l') :=
  ⟨h.akin.note l l', h.buffer⟩

/-! ## Without the buffer -/

theorem InStep.settle (isDue : Deadline → Bool) (h : InStep rules others R s t) :
    InStep rules others R (settle rules isDue s) (settle others isDue t) := by
  refine ⟨h.akin.settle isDue, ?_⟩
  rw [settle_buffer, settle_buffer]
  exact h.buffer

theorem InStep.settleBy (instant : Nat) (h : InStep rules others R s t) :
    InStep rules others R (settleBy rules instant s) (settleBy others instant t) := h.settle _

theorem InStep.dispatch (ks : List Key) {r r' : Option Nat} (same : SameRule rules others r r') (instant : Nat)
    (h : InStep rules others R s t) :
    InStep rules others R (dispatch rules ks r instant s) (dispatch others ks r' instant t) := by
  refine ⟨h.akin.dispatch ks same instant, ?_⟩
  rw [(dispatch_frame rules _ _ _ _).1, (dispatch_frame others _ _ _ _).1]
  exact h.buffer

theorem InStep.release (k : Key) (instant : Nat) (h : InStep rules others R s t) :
    InStep rules others R (release rules k instant s) (release others k instant t) := by
  refine ⟨h.akin.release k instant, ?_⟩
  rw [(release_frame rules _ _ _).1, (release_frame others _ _ _).1]
  exact h.buffer

theorem InStep.tick (instant : Nat) (h : InStep rules others R s t) :
    InStep rules others R (s.tick instant) (t.tick instant) := by
  refine ⟨h.akin.tick instant, ?_⟩
  rw [State.tick_buffer, State.tick_buffer]
  exact h.buffer

theorem any_akin {Q : Press → Press → Prop} {ps qs : List Press} (h : List.Forall₂ Q ps qs) {f g : Press → Bool}
    (agree : ∀ p q, Q p q → f p = g q) : ps.any f = qs.any g := by
  induction h with
  | nil => rfl
  | cons hpq _ ih => rw [List.any_cons, List.any_cons, agree _ _ hpq, ih]

theorem rel_cases {α β : Type} {Q : α → β → Prop} {a : Option α} {b : Option β} (h : Option.Rel Q a b) :
    (a = none ∧ b = none) ∨ ∃ x y, a = some x ∧ b = some y ∧ Q x y := by
  cases h with
  | none => exact .inl ⟨rfl, rfl⟩
  | some hxy => exact .inr ⟨_, _, rfl, rfl, hxy⟩

/-! ## Keys held back -/

theorem sameRule_of_rel {r r' : Option Nat} (h : Option.Rel (fun i j => rules[i]? = others[j]?) r r') :
    SameRule rules others r r' := by
  cases h with
  | none => rfl
  | some same => exact same

variable (rules) in
theorem startBuffer_found {k : Key} {i : Nat} {m : Manipulator} (found : findRule rules s k true = some i)
    (placed : rules[i]? = some m) (together : m.trigger.isTogether = true) (instant : Nat) :
    startBuffer rules k instant s =
      ({ s with
        serial := s.serial + 1
        buffer := some ⟨[(k, instant)], openCandidates rules s k,
          ⟨after instant ((m.trigger.window?.map UInt32.toNat).getD 0), s.serial + 1⟩⟩ } : State).note
        (.buffered k (openCandidates rules s k) s.flags) := by
  have head := openCandidates_head found (by rw [placed]; exact together)
  have window : (do (← rules[← (openCandidates rules s k).head?]?).trigger.window? : Option Millis) =
      m.trigger.window? := by
    rw [head]
    show (rules[i]?.bind fun m => m.trigger.window?) = m.trigger.window?
    rw [placed]
    rfl
  simp only [startBuffer, window]

section
variable (c : ChooseAlike rules others R)
include c

theorem InStep.press (k : Key) (instant : Nat) (simultaneous : Bool) (h : InStep rules others R s t) :
    InStep rules others R (press rules k instant simultaneous s) (press others k instant simultaneous t) := by
  unfold Engine.press
  rcases rel_cases (c.found h.akin.flags k simultaneous) with ⟨none, none'⟩ | ⟨i, j, found, found', same⟩
  · rw [none, none']
    exact h.dispatch [k] (sameRule_of_rel .none) instant
  · rw [found, found']
    simp only
    rw [← same]
    split
    · -- only a search for simultaneous rules finds one, and it sets the window of the buffer in both
      rename_i together
      cases simultaneous with
      | false =>
        rw [findRule_single rules found] at together
        cases together
      | true =>
        obtain ⟨m, placed, together⟩ := (Option.any_eq_true ..).1 together
        rw [startBuffer_found rules found placed together, startBuffer_found others found' (same ▸ placed) together,
          ← h.akin.serial]
        exact InStep.note ⟨h.akin.opening _ _ _, .some (c.opened h.akin.flags k instant _)⟩ _ _
    · exact h.dispatch [k] (sameRule_of_rel (.some same)) instant

theorem InStep.flush {b d : Buffer} (hbd : R b d) (h : InStep rules others R s t) :
    InStep rules others R (flush rules b s) (flush others d t) := by
  have replays : ∀ (ks : List (Key × Nat)) {s t : State}, InStep rules others R s t →
      InStep rules others R (ks.foldl (replay rules) s) (ks.foldl (replay others) t) := by
    intro ks
    induction ks with
    | nil => exact fun h => h
    | cons k ks ih => exact fun h => ih ((h.settleBy k.2).press c k.1 k.2 false)
  unfold Engine.flush
  rw [← c.keys hbd]
  exact replays b.keys (InStep.note ⟨h.akin.holding none none, .none⟩ _ _)

theorem InStep.finish {b d : Buffer} (hbd : R b d) {i j : Nat} (same : rules[i]? = others[j]?)
    (h : InStep rules others R s t) : InStep rules others R (finish rules b i s) (finish others d j t) := by
  have emptied : InStep rules others R (handOver rules b i s) (handOver others d j t) := by
    unfold handOver
    rw [← same]
    split
    · exact ⟨h.akin.holding none none, .none⟩
    · exact InStep.note ⟨h.akin.holding none none, .none⟩ _ _
  have last : d.lastKey t.now = b.lastKey s.now := by rw [Buffer.lastKey, Buffer.lastKey, c.keys hbd, h.akin.now]
  rw [finish_eq, finish_eq, last, ← c.keys hbd]
  exact emptied.dispatch _ (sameRule_of_rel (.some same)) _

theorem InStep.closeWindow {b d : Buffer} (hbd : R b d) (h : InStep rules others R s t) :
    InStep rules others R (closeWindow rules b s) (closeWindow others d t) := by
  unfold Engine.closeWindow
  rcases rel_cases (c.complete hbd) with ⟨none, none'⟩ | ⟨i, j, found, found', same, waiting⟩
  · rw [none, none']
    exact (h.note _ _).flush c hbd
  · rw [found, found']
    exact (h.note _ _).finish c hbd same

theorem InStep.tryFinish {b d : Buffer} (hbd : R b d) (h : InStep rules others R s t) :
    InStep rules others R (tryFinish rules b s) (tryFinish others d t) := by
  unfold Engine.tryFinish
  rcases rel_cases (c.complete hbd) with ⟨none, none'⟩ | ⟨i, j, found, found', same, waiting⟩
  · rw [none, none']
    exact h
  · rw [found, found']
    simp only
    rw [← waiting]
    split
    · exact h
    · exact h.finish c hbd same

theorem InStep.extend {b d : Buffer} (hbd : R b d) (k : Key) (instant : Nat) (h : InStep rules others R s t) :
    InStep rules others R (extend rules b k instant s) (extend others d k instant t) := by
  have fits := c.fits hbd k
  have joined := c.joined hbd k instant
  have fitting_eq (rules : List Manipulator) (b : Buffer) (s : State) : Engine.extend rules b k instant s =
      if (fitting rules b k).isEmpty then Engine.press rules k instant true (Engine.flush rules b s)
      else Engine.tryFinish rules (b.joined rules k instant) { s with buffer := some (b.joined rules k instant) } := rfl
  rw [fitting_eq rules, fitting_eq others, ← fits]
  split
  · exact (h.flush c hbd).press c k instant true
  · exact InStep.tryFinish c joined ⟨h.akin.holding _ _, .some joined⟩

/-! ## Inputs -/

theorem InStep.fireDue (instant : Nat) (h : InStep rules others R s t) :
    InStep rules others R (fireDue rules instant s) (fireDue others instant t) := by
  unfold Engine.fireDue
  rcases rel_cases h.buffer with ⟨hs, ht⟩ | ⟨b, d, hs, ht, hbd⟩
  · rw [hs, ht]
    exact h.settleBy instant
  · rw [hs, ht]
    simp only
    rw [← c.deadline hbd]
    split
    · exact ((h.settle _).closeWindow c hbd).settleBy instant
    · exact h.settleBy instant

theorem InStep.advanceTo (instant : Nat) (h : InStep rules others R s t) :
    InStep rules others R (advanceTo rules instant s) (advanceTo others instant t) := by
  unfold Engine.advanceTo
  simp only
  rw [(h.tick instant).akin.now]
  exact (h.tick instant).fireDue c _

theorem InStep.accept (k : Key) (h : InStep rules others R s t) :
    InStep rules others R (accept rules k s) (accept others k t) := by
  have noted := h.note (.accepted k s.now) (.accepted k t.now)
  unfold Engine.accept
  simp only
  rw [noted.akin.now]
  rcases rel_cases noted.buffer with ⟨hs, ht⟩ | ⟨b, d, hs, ht, hbd⟩
  · rw [hs, ht]
    exact noted.press c k _ true
  · rw [hs, ht]
    exact noted.extend c hbd k _

theorem InStep.isDown (h : InStep rules others R s t) (k : Key) : s.isDown k = t.isDown k := by
  unfold State.isDown
  rw [any_akin h.akin.presses fun p q hpq => hpq.held.contains_eq]
  rcases rel_cases h.buffer with ⟨hs, ht⟩ | ⟨b, d, hs, ht, hbd⟩
  · rw [hs, ht]
  · rw [hs, ht, Option.any_some, Option.any_some, c.keys hbd]

theorem InStep.flushHolding (k : Key) (h : InStep rules others R s t) :
    InStep rules others R (flushHolding rules k s) (flushHolding others k t) := by
  unfold Engine.flushHolding
  rcases rel_cases h.buffer with ⟨hs, ht⟩ | ⟨b, d, hs, ht, hbd⟩
  · rw [hs, ht]
    exact h
  · rw [hs, ht]
    simp only
    rw [← c.keys hbd]
    split
    · exact h.flush c hbd
    · exact h

theorem InStep.step (h : InStep rules others R s t) (i : Input) :
    InStep rules others R (step rules s i) (step others t i) := by
  cases i with
  | down k instant =>
    have passed := h.advanceTo c instant
    simp only [Engine.step, keyDown]
    rw [passed.isDown c k]
    split
    · exact passed.note _ _
    · exact passed.accept c k
  | up k instant =>
    have passed := h.advanceTo c instant
    simp only [Engine.step, keyUp]
    rw [passed.akin.now]
    exact (passed.flushHolding c k).release k _
  | advance instant => exact h.advanceTo c instant
  | take =>
    refine ⟨?_, h.buffer⟩
    exact ⟨h.akin.flags, h.akin.presses, h.akin.pending, h.akin.armed, rfl, h.akin.now, h.akin.serial⟩

theorem InStep.run (h : InStep rules others R s t) (more : List Input) :
    InStep rules others R (more.foldl (Engine.step rules) s) (more.foldl (Engine.step others) t) := by
  induction more generalizing s t with
  | nil => exact h
  | cons i more ih => exact ih (h.step c i)

theorem ChooseAlike.run (inputs : List Input) :
    InStep rules others R (Engine.run rules inputs) (Engine.run others inputs) :=
  InStep.run c ⟨⟨rfl, .nil, .nil, rfl, rfl, rfl, rfl⟩, .none⟩ inputs

end

end

end KeyRules.Engine
