import KeyRules.Proofs.Engine.ChordBuffer
import KeyRules.Proofs.Engine.InStep

/-!
# Candidates of a buffer

The candidates of a buffer are the rules whose gates were open when it was opened and whose triggers accept the keys
held back since then, in the order of the rules (`Reachable.listed`). So whether one is left, which one is complete and
whether an earlier one still waits are questions about the first rule with a property (`none_left`, `Listing.complete`,
`Listing.waiting`).
-/

namespace KeyRules.Engine

/-! ## Triggers that accept keys -/

theorem Trigger.accepts_one (t : Trigger) (k : Key) : t.accepts [k] = t.opensWith k := by
  cases t with
  | single j anyModifiers => rfl
  | together ks order window =>
    cases order with
    | anyOrder =>
      cases ks with
      | nil => rfl
      | cons j ks => simp [Trigger.accepts, Trigger.opensWith]
    | listed =>
      cases ks with
      | nil => rfl
      | cons j ks => simp [Trigger.accepts, Trigger.opensWith, List.isPrefixOf, Bool.beq_comm]

/-- With a key less the trigger still accepts the keys. -/
theorem Trigger.accepts_of_concat {t : Trigger} {ks : List Key} {k : Key} (h : t.accepts (ks ++ [k]) = true) :
    t.accepts ks = true := by
  cases t with
  | single j anyModifiers => cases h
  | together set order window =>
    cases order with
    | anyOrder =>
      simp only [Trigger.accepts, Bool.and_eq_true, decide_eq_true_iff, List.length_append, List.all_append] at h ⊢
      exact ⟨by omega, h.2.1⟩
    | listed =>
      simp only [Trigger.accepts, List.isPrefixOf_iff_prefix] at h ⊢
      exact (List.prefix_append ks [k]).trans h

theorem Trigger.mem_of_accepts {t : Trigger} {ks : List Key} (h : t.accepts ks = true) {k : Key} (hk : k ∈ ks) :
    k ∈ t.keys := by
  cases t with
  | single j anyModifiers => cases h
  | together set order window =>
    cases order with
    | anyOrder =>
      simp only [Trigger.accepts, Bool.and_eq_true, List.all_eq_true] at h
      exact List.contains_iff_mem.1 (h.2 k hk)
    | listed => exact (List.isPrefixOf_iff_prefix.1 h).subset hk

/-! ## Rules that take keys -/

/-- With these flags set a rule takes the keys together. -/
def takes (flags : List Flag) (ks : List Key) (m : Manipulator) : Bool :=
  m.gates.all (Gate.isOpen flags) && m.trigger.accepts ks

/-- The rule takes the keys, and they are all that it wants. -/
def takesAll (flags : List Flag) (ks : List Key) (m : Manipulator) : Bool :=
  takes flags ks m && m.trigger.keys.length == ks.length

section
variable (rules : List Manipulator)

def takers (flags : List Flag) (ks : List Key) : List Nat :=
  (List.range rules.length).filter fun i => rules[i]?.any (takes flags ks)

/-- The buffer lists the rules that take its keys, with the gates as they were under these flags. -/
structure Buffer.Listing (flags : List Flag) (b : Buffer) : Prop where
  opened : b.names ≠ []
  candidates : b.candidates = takers rules flags b.names

end

section
variable {rules : List Manipulator} {flags : List Flag} {b : Buffer}

theorem openCandidates_eq_takers (s : State) (k : Key) : openCandidates rules s k = takers rules s.flags [k] := by
  refine List.filter_congr fun i _ => ?_
  refine congrArg (fun f => rules[i]?.any f) (funext fun m => ?_)
  rw [takes, Trigger.accepts_one]
  rfl

theorem listing_opened (s : State) (k : Key) (instant : Nat) (deadline : Deadline) :
    Buffer.Listing rules s.flags ⟨[(k, instant)], openCandidates rules s k, deadline⟩ :=
  ⟨List.cons_ne_nil k [], openCandidates_eq_takers s k⟩

theorem Buffer.names_joined (b : Buffer) (k : Key) (instant : Nat) :
    (b.joined rules k instant).names = b.names ++ [k] := by
  simp [Buffer.names, Buffer.joined]

/-- A key that joins leaves the rules that take all keys. -/
theorem Buffer.Listing.fitting (h : b.Listing rules flags) (k : Key) :
    fitting rules b k = takers rules flags (b.names ++ [k]) := by
  rw [Engine.fitting, h.candidates, takers, List.filter_filter]
  refine List.filter_congr fun i hi => ?_
  obtain ⟨m, placed⟩ : ∃ m, rules[i]? = some m := ⟨_, List.getElem?_eq_getElem (List.mem_range.1 hi)⟩
  rw [placed, Option.any_some, Option.any_some, Option.any_some]
  show (m.trigger.accepts (b.names ++ [k]) && takes flags b.names m) = takes flags (b.names ++ [k]) m
  unfold takes
  cases hk : m.trigger.accepts (b.names ++ [k]) with
  | false => rw [Bool.false_and, Bool.and_false]
  | true => rw [Trigger.accepts_of_concat hk, Bool.true_and]

theorem Buffer.Listing.joined (h : b.Listing rules flags) (k : Key) (instant : Nat) :
    (b.joined rules k instant).Listing rules flags := by
  have names : (b.joined rules k instant).names = b.names ++ [k] := b.names_joined k instant
  refine ⟨?_, ?_⟩
  · rw [names]
    exact List.append_ne_nil_of_right_ne_nil _ (List.cons_ne_nil k [])
  · rw [names]
    exact h.fitting k

theorem Buffer.Listing.sorted (h : b.Listing rules flags) : b.candidates.Pairwise (· < ·) :=
  h.candidates ▸ List.pairwise_lt_range.filter _

theorem Buffer.Listing.mem_iff (h : b.Listing rules flags) {i : Nat} :
    i ∈ b.candidates ↔ ∃ m, rules[i]? = some m ∧ takes flags b.names m = true := by
  rw [h.candidates, takers, mem_places]

/-! ## First rules -/

theorem takers_head (ks : List Key) : (takers rules flags ks).head? = rules.findIdx? (takes flags ks) := by
  rw [takers, List.head?_filter]
  exact find_range rules _ fun i hi => by rw [List.getElem?_eq_getElem hi, Option.any_some]

theorem none_left (ks : List Key) : (takers rules flags ks).isEmpty = (rules.findIdx? (takes flags ks)).isNone := by
  rw [← takers_head]
  cases takers rules flags ks <;> rfl

/-- The first rule that wants just these keys is complete. -/
theorem Buffer.Listing.complete (h : b.Listing rules flags) :
    complete? rules b = rules.findIdx? (takesAll flags b.names) := by
  rw [complete?, h.candidates, takers, List.find?_filter]
  refine find_range rules _ fun i hi => ?_
  have size : b.keys.length = b.names.length := (List.length_map _).symm
  rw [isComplete, triggerKeys_eq (List.getElem?_eq_getElem hi), size, List.getElem?_eq_getElem hi, Option.any_some,
    takesAll, Bool.decide_and, Bool.decide_eq_true, Bool.decide_eq_true]

/-- In a sorted list, something before the first item with a property has to be the head. -/
theorem any_before_iff {is : List Nat} (sorted : is.Pairwise (· < ·)) {p : Nat → Bool} {i : Nat}
    (first : is.find? p = some i) : (is.any fun j => decide (j < i) && !p j) = true ↔ is.head? ≠ some i := by
  cases is with
  | nil => cases first
  | cons f is =>
    rw [List.head?_cons, ne_eq, Option.some_inj, List.any_eq_true]
    have after : ∀ {j}, j ∈ is → f < j := List.rel_of_pairwise_cons sorted
    constructor
    · rintro ⟨j, hj, lacks⟩ rfl
      have less : j < f := by simp at lacks; exact lacks.1
      rcases List.mem_cons.1 hj with rfl | hj
      · omega
      · have := after hj
        omega
    · intro other
      rw [List.find?_cons] at first
      cases hf : p f with
      | true =>
        rw [hf] at first
        exact absurd (Option.some.inj first) other
      | false =>
        rw [hf] at first
        have less : f < i := after (List.mem_of_find?_eq_some first)
        exact ⟨f, List.mem_cons_self, by simp [hf, less]⟩

/-- The complete candidate has to wait if another one comes first. -/
theorem Buffer.Listing.waiting (h : b.Listing rules flags) {i : Nat} (complete : complete? rules b = some i) :
    isWaiting rules b i = true ↔ rules.findIdx? (takes flags b.names) ≠ some i := by
  rw [← takers_head, ← h.candidates]
  exact any_before_iff h.sorted complete

/-! ## Every moment of every run -/

variable (rules) in
/-- Some rule takes the keys of the buffer, and it lists those that do by the flags of the last opening. -/
def Listed (s : State) : Prop :=
  ∀ b, s.buffer = some b → b.candidates ≠ [] ∧
    ∀ o, (openings s.bare.journal).getLast? = some o → b.Listing rules o.flags

theorem Listed.of_free {s : State} (free : s.buffer = none) : Listed rules s :=
  fun b held => by rw [free] at held; cases held

theorem Listed.asides {s t : State} (h : Listed rules s) {more : List Incident}
    (journal : t.bare.journal = s.bare.journal ++ more) (asides : ∀ l ∈ more, l.isAside)
    (buffer : t.buffer = s.buffer) : Listed rules t := by
  intro b held
  rw [journal, openings_asides asides]
  exact h b (buffer.symm.trans held)

theorem Listed.note {s : State} (h : Listed rules s) {l : Incident} (sending : l.isSending = false)
    (aside : l.isAside) : Listed rules (s.note l) := by
  refine h.asides (State.journal_note sending s) (fun j hj => ?_) rfl
  rw [List.mem_singleton.1 hj]
  exact aside

theorem Listed.holdBack {s : State} {k : Key} {i : Nat} (found : findRule rules s k true = some i)
    (together : rules[i]?.any (·.trigger.isTogether) = true) (instant : Nat) :
    Listed rules (startBuffer rules k instant s) := by
  intro b held
  obtain rfl := Option.some.inj held
  refine ⟨List.ne_nil_of_mem (List.mem_of_mem_head? (Option.mem_def.2 (openCandidates_head found together))),
    fun o last => ?_⟩
  rw [startBuffer_journal] at last
  simp only [openings, List.filterMap_append, List.filterMap_cons, Incident.opens?, List.filterMap_nil,
    List.getLast?_concat, Option.some_inj] at last
  subst last
  exact listing_opened s k instant _

theorem Reachable.listed {x : Session} (hx : Reachable rules x) : Listed rules x.state := by
  induction hx with
  | start => exact .of_free rfl
  | move hx step ih =>
    cases step with
    | fire first => exact ih.asides (fire_journal rules _ _ _) (fireLines_asides _ _) (fire_frame rules _ _ _).1
    | dispatch simultaneous free oldest once single => exact .of_free ((dispatch_frame rules _ _ _ _).1.trans free)
    | holdBack free oldest found together => exact .holdBack found together _
    | join held oldest narrowed some_left =>
      intro c hc
      obtain rfl := Option.some.inj hc
      exact ⟨some_left, fun o last => narrowed ▸ ((ih _ held).2 o last).joined _ _⟩
    | close held due => exact ih.note rfl ⟨rfl, rfl⟩
    | finish held idle first ready => exact .of_free (finish_frame rules _ _ _).1
    | flush held => exact .of_free rfl
  | @tick x _ _ instant ih =>
    obtain ⟨more, ticked, late⟩ := x.state.bare_tick instant
    refine ih.asides (congrArg State.journal ticked) (fun l hm => ?_) (State.tick_buffer _ instant)
    obtain ⟨t, n, rfl⟩ := late l hm
    exact ⟨rfl, rfl⟩
  | accept _ _ _ ih => exact ih.note rfl ⟨rfl, rfl⟩
  | refuse _ _ _ ih => exact ih.note rfl ⟨rfl, rfl⟩
  | release _ _ _ ih =>
    exact ih.asides (release_journal rules _ _ _) (releaseLines_asides rules _ _ _) (release_frame rules _ _ _).1
  | take _ _ ih => exact ih

/-- A buffer lists the rules that take its keys, at any moment of any run. -/
theorem Reachable.listing {x : Session} (hx : Reachable rules x) (b : Buffer) (held : x.state.buffer = some b) :
    ∃ flags, b.Listing rules flags := by
  obtain ⟨o, opened⟩ := hx.preceded.opened b held
  exact ⟨o.flags, (hx.listed b held).2 o opened.last⟩

end

end KeyRules.Engine
