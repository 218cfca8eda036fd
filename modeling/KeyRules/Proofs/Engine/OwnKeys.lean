import KeyRules.Proofs.Engine.Timers
import KeyRules.Proofs.Engine.Undisturbed
import Mathlib.Data.List.Pairwise

/-!
# Keys of single-key rules

A rule for a single key gets nothing but that key, and each key is held by one press. So at most one press of such a
rule is in flight (`Reachable.only_press`), and while it is, the key begins no other one (`Reachable.key_taken`).
-/

namespace KeyRules.Engine

section
variable {rules : List Manipulator}

variable (rules) in
/-- A rule for a single key gets that key only. -/
def Fits (rule : Option Nat) (keys : List Key) : Prop :=
  ∀ i m k anyModifiers, rule = some i → rules[i]? = some m → m.trigger = .single k anyModifiers → keys ⊆ [k]

theorem Fits.subset {rule : Option Nat} {keys fewer : List Key} (h : Fits rules rule keys) (hs : fewer ⊆ keys) :
    Fits rules rule fewer := fun i m k anyModifiers hi hm ht _ hk => h i m k anyModifiers hi hm ht (hs hk)

theorem fits_found {s : State} {k : Key} {simultaneous : Bool} :
    Fits rules (findRule rules s k simultaneous) [k] := by
  intro i m j anyModifiers found hm trigger
  obtain ⟨hi, reacts, -⟩ := List.findIdx?_eq_some_iff_getElem.1 found
  obtain rfl := Option.some.inj ((List.getElem?_eq_getElem hi).symm.trans hm)
  simp only [reactsTo, trigger, Bool.and_eq_true, beq_iff_eq] at reacts
  rw [reacts.2]
  exact List.Subset.refl _

theorem fits_together {i : Nat} (together : rules[i]?.any (·.trigger.isTogether) = true) (keys : List Key) :
    Fits rules (some i) keys := by
  intro j m k anyModifiers hj hm trigger
  obtain rfl := Option.some.inj hj
  rw [hm, Option.any_some, trigger] at together
  cases together

variable (rules) in
/-- Presses and delayed actions have keys of their rules. -/
structure Fitting (s : State) : Prop where
  presses : ∀ p ∈ s.presses, Fits rules p.rule p.held
  pending : ∀ d ∈ s.pending, Fits rules (some d.rule) d.owners

theorem Fitting.dispatch {s : State} (h : Fitting rules s) {keys : List Key} {rule : Option Nat}
    (fits : Fits rules rule keys) (instant : Nat) : Fitting rules (dispatch rules keys rule instant s) where
  presses p hp := by
    obtain ⟨q, hq, hf, -, -⟩ | ⟨-, held, hr⟩ := dispatch_from keys rule instant s p hp
    · rw [hf.rule_eq]
      exact (h.presses q hq).subset hf.held_sublist.subset
    · rw [held]
      exact fun i m k anyModifiers hi => fits i m k anyModifiers (hr i hi).1
  pending d hd := by
    rcases dispatch_pending hd with hd | ⟨owners, rfl⟩
    · exact h.pending d hd
    · rw [owners]
      exact fits

theorem Fitting.release {s : State} (h : Fitting rules s) (ho : Orderly rules s) (k : Key) (instant : Nat) :
    Fitting rules (release rules k instant s) where
  presses p hp := by
    obtain ⟨q, hq, hf⟩ := release_from ho k instant p hp
    rw [hf.rule_eq]
    exact (h.presses q hq).subset hf.held_sublist.subset
  pending d hd := by
    obtain ⟨c, hc, owners, rule⟩ := release_pending hd
    rw [owners, rule]
    exact h.pending c hc

theorem Fitting.handOver {s : State} (h : Fitting rules s) (b : Buffer) (i : Nat) :
    Fitting rules (handOver rules b i s) := by
  obtain ⟨more, hs, -⟩ := handOver_eq rules b i s
  rw [hs]
  exact ⟨h.presses, h.pending⟩

theorem Fitting.move {x y : Session} (h : Fitting rules x.state) (hx : Reachable rules x) (step : Move rules x y) :
    Fitting rules y.state := by
  cases step with
  | fire first =>
    refine ⟨fun p hp => ?_, fun d hd => h.pending d ((fire_pending _ _ _).subset hd)⟩
    obtain ⟨q, hq, hf⟩ := fire_from _ _ _ p hp
    rw [hf.rule_eq]
    exact (h.presses q hq).subset hf.held_sublist.subset
  | dispatch simultaneous free oldest once single => exact h.dispatch fits_found _
  | holdBack free oldest found together => exact ⟨h.presses, h.pending⟩
  | join held oldest narrowed some_left => exact ⟨h.presses, h.pending⟩
  | close held due => exact ⟨h.presses, h.pending⟩
  | @finish b i held idle first ready =>
    simp only [finish_eq]
    exact (h.handOver b i).dispatch (fits_together (hx.finish_together held first) _) _
  | flush held => exact ⟨h.presses, h.pending⟩

theorem Reachable.fitting {x : Session} (hx : Reachable rules x) : Fitting rules x.state := by
  induction hx with
  | start => exact ⟨fun _ hp => (List.not_mem_nil hp).elim, fun _ hd => (List.not_mem_nil hd).elim⟩
  | move hx step ih => exact ih.move hx step
  | @tick x _ _ instant ih =>
    obtain ⟨more, ht, -⟩ := x.state.tick_eq instant
    rw [ht]
    exact ⟨ih.presses, ih.pending⟩
  | accept _ _ _ ih => exact ⟨ih.presses, ih.pending⟩
  | refuse _ _ _ ih => exact ⟨ih.presses, ih.pending⟩
  | release hx _ _ ih => exact ih.release hx.orderly _ _
  | take _ _ ih => exact ⟨ih.presses, ih.pending⟩

/-! ## One press for each key -/

theorem Tracked.holds {x : Session} (h : Tracked x) {p : Press} (hp : p ∈ x.state.presses) : p.held ≠ [] :=
  fun he => h.held (he ▸ List.mem_map_of_mem hp)

theorem Tracked.press_eq {x : Session} (h : Tracked x) {p q : Press} (hp : p ∈ x.state.presses)
    (hq : q ∈ x.state.presses) {k : Key} (hkp : k ∈ p.held) (hkq : k ∈ q.held) : p = q := by
  have hn := h.owned.nodup_iff.2 h.down_nodup
  rw [List.append_assoc, List.nodup_append, List.nodup_flatten] at hn
  have apart : x.state.presses.Pairwise fun a b => List.Disjoint a.held b.held :=
    List.pairwise_map.1 hn.1.2
  have : Std.Symm fun a b : Press => List.Disjoint a.held b.held := ⟨fun _ _ hd k hb ha => hd ha hb⟩
  by_contra hne
  exact apart.forall hp hq hne hkp hkq

theorem Reachable.held_key {x : Session} (hx : Reachable rules x) {p : Press} (hp : p ∈ x.state.presses) {i : Nat}
    (hr : p.rule = some i) {m : Manipulator} (hm : rules[i]? = some m) {k : Key} {anyModifiers : Bool}
    (trigger : m.trigger = .single k anyModifiers) : k ∈ p.held := by
  have hs := hx.fitting.presses p hp i m k anyModifiers hr hm trigger
  obtain ⟨j, hj⟩ := List.exists_mem_of_ne_nil _ (hx.tracked.holds hp)
  rwa [← List.mem_singleton.1 (hs hj)]

/-- At most one press of a single-key rule is in flight. -/
theorem Reachable.only_press {x : Session} (hx : Reachable rules x) {i : Nat} {m : Manipulator}
    (hm : rules[i]? = some m) {k : Key} {anyModifiers : Bool} (trigger : m.trigger = .single k anyModifiers)
    {p q : Press} (hp : p ∈ x.state.presses) (hq : q ∈ x.state.presses) (hpr : p.rule = some i)
    (hqr : q.rule = some i) : p = q :=
  hx.tracked.press_eq hp hq (hx.held_key hp hpr hm trigger) (hx.held_key hq hqr hm trigger)

theorem Reachable.key_taken {x : Session} (hx : Reachable rules x) {p : Press} (hp : p ∈ x.state.presses) {k : Key}
    (hk : k ∈ p.held) : k ∉ x.waitingKeys := by
  intro hw
  have hn := hx.tracked.owned.nodup_iff.2 hx.tracked.down_nodup
  have held : k ∈ x.state.heldLists.flatten ++ x.state.buffered :=
    List.mem_append_left _ (List.mem_flatten.2 ⟨p.held, List.mem_map_of_mem hp, hk⟩)
  exact List.disjoint_of_nodup_append hn held hw

end

end KeyRules.Engine
