import KeyRules.Proofs.Engine.Candidates
import KeyRules.Proofs.Engine.Gates

/-!
# Rules left out and rules moved

One rule list renumbers another: every rule that stays has its place, rules that share a key keep their order, and
what is left out is shadowed by a rule that stays. All that the engine asks of its rules is which one is the first that
wants a key, so the two lists choose alike (`Renumbering.chooseAlike`) and their engines do the same
(`Renumbering.run`).
-/

namespace KeyRules

/-- The same single key, or the same keys together in the same order. The windows may differ. -/
def Trigger.SameKeys : Trigger → Trigger → Prop
  | .single k _, .single j _ => k = j
  | .together ks order _, .together js other _ => ks = js ∧ order = other
  | _, _ => False

/-- Whatever the other manipulator reacts to, this one reacts to as well. -/
structure Manipulator.Shadows (m n : Manipulator) : Prop where
  trigger : m.trigger.SameKeys n.trigger
  gates : m.gates ⊆ n.gates

namespace Trigger.SameKeys

variable {t u : Trigger}

theorem keys (h : t.SameKeys u) : t.keys = u.keys := by
  cases t <;> cases u
  · exact congrArg ([·]) h
  · cases h
  · cases h
  · exact h.1

theorem accepts (h : t.SameKeys u) (ks : List Key) : t.accepts ks = u.accepts ks := by
  cases t <;> cases u
  · rfl
  · cases h
  · cases h
  · obtain ⟨rfl, rfl⟩ := h
    rename_i order _ _
    cases order <;> rfl

end Trigger.SameKeys

namespace Engine

/-! ## What the engine asks of a rule -/

/-- A question that only rules with the key answer, and that a rule answers whenever one that it shadows does. -/
structure Wants (P : Manipulator → Bool) (k : Key) : Prop where
  key : ∀ {m}, P m = true → k ∈ m.trigger.keys
  shadows : ∀ {m n}, m.Shadows n → P n = true → P m = true

theorem gates_of_shadows {m n : Manipulator} (h : m.Shadows n) {flags : List Flag}
    (active : n.gates.all (Gate.isOpen flags) = true) : m.gates.all (Gate.isOpen flags) = true :=
  List.all_eq_true.2 fun g hg => List.all_eq_true.1 active g (h.gates hg)

theorem reactsTo_wants (s : State) (k : Key) (simultaneous : Bool) : Wants (reactsTo s k simultaneous) k where
  key {m} reacts := by
    obtain ⟨-, reacts⟩ := Bool.and_eq_true_iff.1 reacts
    cases ht : m.trigger with
    | single j anyModifiers =>
      rw [ht] at reacts
      exact List.mem_singleton.2 (eq_of_beq reacts).symm
    | together ks order window =>
      rw [ht] at reacts
      obtain ⟨-, opens⟩ := Bool.and_eq_true_iff.1 reacts
      rw [← Trigger.accepts_one] at opens
      exact Trigger.mem_of_accepts opens List.mem_cons_self
  shadows {m n} h reacts := by
    obtain ⟨active, reacts⟩ := Bool.and_eq_true_iff.1 reacts
    have same := h.trigger
    refine Bool.and_eq_true_iff.2 ⟨gates_of_shadows h active, ?_⟩
    cases hm : m.trigger <;> cases hn : n.trigger <;> rw [hm, hn] at same <;> rw [hn] at reacts
    · exact same ▸ reacts
    · cases same
    · cases same
    · obtain ⟨rfl, rfl⟩ := same
      rename_i order _ _
      cases order <;> exact reacts

theorem takes_wants (flags : List Flag) {ks : List Key} {k : Key} (member : k ∈ ks) : Wants (takes flags ks) k where
  key taken := Trigger.mem_of_accepts (Bool.and_eq_true_iff.1 taken).2 member
  shadows {m n} h taken := by
    obtain ⟨active, accepts⟩ := Bool.and_eq_true_iff.1 taken
    exact Bool.and_eq_true_iff.2 ⟨gates_of_shadows h active, (h.trigger.accepts ks).trans accepts⟩

theorem takesAll_wants (flags : List Flag) {ks : List Key} {k : Key} (member : k ∈ ks) :
    Wants (takesAll flags ks) k where
  key taken := (takes_wants flags member).key (Bool.and_eq_true_iff.1 taken).1
  shadows {m n} h taken := by
    obtain ⟨taken, size⟩ := Bool.and_eq_true_iff.1 taken
    refine Bool.and_eq_true_iff.2 ⟨(takes_wants flags member).shadows h taken, ?_⟩
    rw [h.trigger.keys]
    exact size

/-! ## Renumbered rules -/

/-- The rules that stay stand at their places in the other list, which has no more rules. Those that share a key keep
their order, and those that are left out are shadowed. -/
structure Renumbering (rules others : List Manipulator) (stays : Nat → Prop) (place : Nat → Nat) : Prop where
  same : ∀ {i}, stays i → others[place i]? = rules[i]?
  onto : ∀ {j}, j < others.length → ∃ i, stays i ∧ place i = j
  ordered : ∀ {i j m n k}, stays i → stays j → rules[i]? = some m → rules[j]? = some n →
    k ∈ m.trigger.keys → k ∈ n.trigger.keys → i < j → place i < place j
  shadowed : ∀ {j n}, rules[j]? = some n → ¬stays j → ∃ i m, i < j ∧ stays i ∧ rules[i]? = some m ∧ m.Shadows n

/-- Buffers that hold the same keys, each with the candidates of its own rules for the same flags. -/
structure Matched (rules others : List Manipulator) (b c : Buffer) : Prop where
  keys : b.keys = c.keys
  deadline : b.deadline = c.deadline
  listing : ∃ flags, b.Listing rules flags ∧ c.Listing others flags

section
variable {rules others : List Manipulator} {stays : Nat → Prop} {place : Nat → Nat}

theorem findIdx?_eq_some_iff {P : Manipulator → Bool} {i : Nat} :
    rules.findIdx? P = some i ↔
      (∃ m, rules[i]? = some m ∧ P m = true) ∧ ∀ j n, rules[j]? = some n → P n = true → i ≤ j := by
  rw [List.findIdx?_eq_some_iff_getElem]
  constructor
  · rintro ⟨hi, hp, before⟩
    refine ⟨⟨_, List.getElem?_eq_getElem hi, hp⟩, fun j n hn hpn => ?_⟩
    by_contra less
    obtain ⟨hj, rfl⟩ := List.getElem?_eq_some_iff.1 hn
    exact before j (Nat.lt_of_not_le less) hpn
  · rintro ⟨⟨m, hm, hp⟩, least⟩
    obtain ⟨hi, rfl⟩ := List.getElem?_eq_some_iff.1 hm
    refine ⟨hi, hp, fun j hj hpj => ?_⟩
    exact Nat.not_lt.2 (least j _ (List.getElem?_eq_getElem (Nat.lt_trans hj hi)) hpj) hj

/-- The first rule that answers stays, and it is the first one in the other list. -/
theorem Renumbering.first (h : Renumbering rules others stays place) {P : Manipulator → Bool} {k : Key}
    (w : Wants P k) {i : Nat} (found : rules.findIdx? P = some i) :
    stays i ∧ others.findIdx? P = some (place i) := by
  obtain ⟨⟨m, placed, hp⟩, least⟩ := findIdx?_eq_some_iff.1 found
  have hi : stays i := by
    by_contra gone
    obtain ⟨j, n, less, -, hn, shadows⟩ := h.shadowed placed gone
    have := least j n hn (w.shadows shadows hp)
    omega
  refine ⟨hi, findIdx?_eq_some_iff.2 ⟨⟨m, (h.same hi).trans placed, hp⟩, fun l n hl hpn => ?_⟩⟩
  -- a rule that answers there stands here too, not before the first one, and both have the key
  obtain ⟨j, hj, rfl⟩ := h.onto (List.getElem?_eq_some_iff.1 hl).1
  have hn := (h.same hj).symm.trans hl
  rcases Nat.lt_or_eq_of_le (least j n hn hpn) with less | rfl
  · exact Nat.le_of_lt (h.ordered hi hj placed hn (w.key hp) (w.key hpn) less)
  · exact Nat.le_refl _

theorem Renumbering.silent (h : Renumbering rules others stays place) {P : Manipulator → Bool}
    (silent : rules.findIdx? P = none) : others.findIdx? P = none := by
  refine List.findIdx?_eq_none_iff.2 fun m hm => ?_
  obtain ⟨j, hj, rfl⟩ := List.mem_iff_getElem.1 hm
  obtain ⟨i, hi, rfl⟩ := h.onto hj
  have placed := h.same hi
  rw [List.getElem?_eq_getElem hj] at placed
  exact List.findIdx?_eq_none_iff.1 silent _ (List.mem_of_getElem? placed.symm)

theorem Renumbering.place_inj (h : Renumbering rules others stays place) {i j : Nat} {m n : Manipulator} {k : Key}
    (hi : stays i) (hj : stays j) (hm : rules[i]? = some m) (hn : rules[j]? = some n) (km : k ∈ m.trigger.keys)
    (kn : k ∈ n.trigger.keys) : place i = place j ↔ i = j := by
  refine ⟨fun same => ?_, congrArg place⟩
  rcases Nat.lt_trichotomy i j with less | same | less
  · have := h.ordered hi hj hm hn km kn less
    omega
  · exact same
  · have := h.ordered hj hi hn hm kn km less
    omega

/-- The complete candidate waits in both lists or in none. -/
theorem Buffer.Listing.waiting_alike (h : Renumbering rules others stays place) {b c : Buffer} {flags : List Flag}
    (names : c.names = b.names) (listed : b.Listing rules flags) (listed' : c.Listing others flags) {i : Nat}
    (complete : complete? rules b = some i) (complete' : complete? others c = some (place i)) :
    isWaiting rules b i = isWaiting others c (place i) := by
  obtain ⟨k, member⟩ := List.exists_mem_of_ne_nil _ listed.opened
  have wants := takes_wants flags member
  rw [Bool.eq_iff_iff, listed.waiting complete, listed'.waiting complete', names]
  rw [listed.complete] at complete
  obtain ⟨hi, -⟩ := h.first (takesAll_wants flags member) complete
  obtain ⟨⟨m, placed, all⟩, -⟩ := findIdx?_eq_some_iff.1 complete
  have taken : takes flags b.names m = true := (Bool.and_eq_true_iff.1 all).1
  cases hf : rules.findIdx? (takes flags b.names) with
  | none => simp [h.silent hf]
  | some f =>
    obtain ⟨hf', found⟩ := h.first wants hf
    obtain ⟨⟨n, hn, head⟩, -⟩ := findIdx?_eq_some_iff.1 hf
    have agree := h.place_inj hf' hi hn placed (wants.key head) (wants.key taken)
    rw [found, ne_eq, ne_eq, Option.some_inj, Option.some_inj, agree]

theorem Renumbering.chooseAlike (h : Renumbering rules others stays place) :
    ChooseAlike rules others (Matched rules others) where
  found {s t} flags k simultaneous := by
    rw [findRule, findRule, ← reactsTo_flags flags]
    cases hf : rules.findIdx? (reactsTo s k simultaneous) with
    | none =>
      rw [h.silent hf]
      exact .none
    | some i =>
      obtain ⟨hi, found⟩ := h.first (reactsTo_wants s k simultaneous) hf
      rw [found]
      exact .some (h.same hi).symm
  opened {s t} flags k instant deadline := by
    refine ⟨rfl, rfl, s.flags, listing_opened s k instant deadline, ?_⟩
    rw [flags]
    exact listing_opened t k instant deadline
  keys matched := matched.keys
  deadline matched := matched.deadline
  fits {b c} matched k := by
    obtain ⟨flags, listed, listed'⟩ := matched.listing
    have names : c.names = b.names := congrArg (List.map Prod.fst) matched.keys.symm
    have wants := takes_wants flags (List.mem_append_right b.names (List.mem_singleton_self k))
    rw [listed.fitting, listed'.fitting, names, none_left, none_left]
    cases hf : rules.findIdx? (takes flags (b.names ++ [k])) with
    | none => rw [h.silent hf]
    | some i =>
      rw [(h.first wants hf).2]
      rfl
  joined {b c} matched k instant := by
    obtain ⟨flags, listed, listed'⟩ := matched.listing
    refine ⟨?_, matched.deadline, flags, listed.joined k instant, listed'.joined k instant⟩
    exact congrArg (· ++ [(k, instant)]) matched.keys
  complete {b c} matched := by
    obtain ⟨flags, listed, listed'⟩ := matched.listing
    have names : c.names = b.names := congrArg (List.map Prod.fst) matched.keys.symm
    obtain ⟨k, member⟩ := List.exists_mem_of_ne_nil _ listed.opened
    cases hf : complete? rules b with
    | none =>
      rw [listed'.complete, names, h.silent (listed.complete.symm.trans hf)]
      exact .none
    | some i =>
      obtain ⟨hi, found⟩ := h.first (takesAll_wants flags member) (listed.complete.symm.trans hf)
      rw [← names, ← listed'.complete] at found
      rw [found]
      exact .some ⟨(h.same hi).symm, listed.waiting_alike h names listed' hf found⟩

/-- On the same inputs renumbered rules send, arm and set the same. -/
theorem Renumbering.run (h : Renumbering rules others stays place) (inputs : List Input) :
    (run others inputs).output = (run rules inputs).output ∧ (run others inputs).armed = (run rules inputs).armed ∧
      (run others inputs).flags = (run rules inputs).flags := by
  have akin := (h.chooseAlike.run inputs).akin
  exact ⟨akin.output.symm, akin.armed.symm, akin.flags.symm⟩

/-! ## Rules that get no press -/

/-- A press goes to a rule that stays. -/
def GoesToStaying (stays : Nat → Prop) : Incident → Prop
  | .dispatched _ _ (some i) _ _ => stays i
  | _ => True

theorem Renumbering.kept (h : Renumbering rules others stays place) :
    Kept rules fun _ l => GoesToStaying stays l where
  aside before l aside := by
    cases l with
    | dispatched press keys rule instant flags => cases aside.1
    | _ => trivial
  opening _ _ _ := trivial
  alone {x k instant later simultaneous} _ _ _ := by
    cases hf : findRule rules x.state k simultaneous with
    | none => trivial
    | some i => exact (h.first (reactsTo_wants x.state k simultaneous) hf).1
  joined {x b i lines} hx held complete _ := by
    obtain ⟨flags, listed⟩ := hx.listing b held
    obtain ⟨k, member⟩ := List.exists_mem_of_ne_nil _ listed.opened
    exact (h.first (takesAll_wants flags member) (listed.complete.symm.trans complete)).1

/-- No press goes to a rule that is left out. -/
theorem Renumbering.dispatched_stays (h : Renumbering rules others stays place) {inputs : List Input}
    {press i instant : Nat} {keys : List Key} {flags : List Flag}
    (line : .dispatched press keys (some i) instant flags ∈ (Engine.run rules inputs).journal) : stays i := by
  obtain ⟨before, after, he⟩ := List.append_of_mem line
  exact h.kept.line he rfl

end

end Engine

end KeyRules
