import KeyRules.Proofs.Engine.Alike
import KeyRules.Proofs.Engine.ChordBuffer

/-!
# Chords of their own keys

A chord is isolated if no other rule has one of its keys. Where other rules and their timers go on, its keys only
gather: the first one opens a buffer for the window of the chord (`Isolated.opens`), the next ones join it, and the last
one lets it fire (`Gathers.joins`). So in time it fires once (`Isolated.completes`), in whatever order its keys come
(`Isolated.alike`). If the window closes or a key goes up before, each key goes down on its own (`Isolated.scatters`).
-/

namespace KeyRules.Engine

/-- A rule is a chord of keys that no other rule has. -/
structure Isolated (rules : List Manipulator) (i : Nat) (m : Manipulator) (ks : List Key) (window : Millis) : Prop where
  placed : rules[i]? = some m
  trigger : m.trigger = .together ks .anyOrder window
  apart : ∀ j e, rules[j]? = some e → j ≠ i → ∀ k ∈ ks, k ∉ e.trigger.keys
  nodup : ks.Nodup
  size : 2 ≤ ks.length

theorem opensWith_key {k : Key} {t : Trigger} (h : t.opensWith k = true) : k ∈ t.keys := by
  cases t with
  | single j any => cases h
  | together ks order window =>
    cases order with
    | anyOrder => exact List.contains_iff_mem.1 h
    | listed => exact List.mem_of_head? (beq_iff_eq.1 h)

theorem reactsTo_key {s : State} {k : Key} {simultaneous : Bool} {e : Manipulator}
    (h : reactsTo s k simultaneous e = true) : k ∈ e.trigger.keys := by
  unfold reactsTo at h
  have reacts := (Bool.and_eq_true_iff.1 h).2
  cases ht : e.trigger with
  | single j any =>
    rw [ht] at reacts
    exact List.mem_singleton.2 (beq_iff_eq.1 reacts).symm
  | together ks order window =>
    rw [ht] at reacts
    exact opensWith_key (Bool.and_eq_true_iff.1 reacts).2

section
variable {rules : List Manipulator} {i : Nat} {m : Manipulator} {ks : List Key} {window : Millis}
variable {s : State} {k : Key} {t : Nat}

/-! ## The chord alone reacts -/

theorem Isolated.reacts (h : Isolated rules i m ks window) (hk : k ∈ ks) {j : Nat} {e : Manipulator}
    (he : rules[j]? = some e) {simultaneous : Bool} (reacts : reactsTo s k simultaneous e = true) :
    j = i ∧ simultaneous = true := by
  have own : j = i := by
    by_contra other
    exact h.apart j e he other k hk (reactsTo_key reacts)
  subst own
  obtain rfl := Option.some.inj (h.placed.symm.trans he)
  unfold reactsTo at reacts
  rw [h.trigger] at reacts
  exact ⟨rfl, (Bool.and_eq_true_iff.1 (Bool.and_eq_true_iff.1 reacts).2).1⟩

theorem Isolated.findRule_alone (h : Isolated rules i m ks window) (hk : k ∈ ks) : findRule rules s k false = none := by
  cases found : findRule rules s k false with
  | none => rfl
  | some j =>
    obtain ⟨hj, reacts, -⟩ := List.findIdx?_eq_some_iff_getElem.1 found
    cases (h.reacts hk (List.getElem?_eq_getElem hj) reacts).2

theorem Isolated.findRule_fresh (h : Isolated rules i m ks window) (hk : k ∈ ks) (gates : s.gatesOpen m.gates = true) :
    findRule rules s k true = some i := by
  have reacts : reactsTo s k true m = true := by
    unfold reactsTo
    rw [gates, h.trigger]
    exact List.contains_iff_mem.2 hk
  cases found : findRule rules s k true with
  | none =>
    have silent := List.findIdx?_eq_none_iff.1 found m (List.mem_of_getElem? h.placed)
    rw [reacts] at silent
    cases silent
  | some j =>
    obtain ⟨hj, reacts, -⟩ := List.findIdx?_eq_some_iff_getElem.1 found
    rw [(h.reacts hk (List.getElem?_eq_getElem hj) reacts).1]

theorem Isolated.openCandidates (h : Isolated rules i m ks window) (hk : k ∈ ks) (gates : s.gatesOpen m.gates = true) :
    openCandidates rules s k = [i] := by
  have one : ∀ j, j ∈ Engine.openCandidates rules s k ↔ j = i := by
    intro j
    unfold Engine.openCandidates
    rw [List.mem_filter, List.mem_range, Option.any_eq_true]
    constructor
    · rintro ⟨-, e, he, opens⟩
      by_contra other
      exact h.apart j e he other k hk (opensWith_key (Bool.and_eq_true_iff.1 opens).2)
    · rintro rfl
      refine ⟨(List.getElem?_eq_some_iff.1 h.placed).1, m, h.placed, ?_⟩
      rw [gates, h.trigger]
      exact List.contains_iff_mem.2 hk
  exact eq_singleton_of_nodup (List.nodup_range.filter _) one

/-- The buffer that a first key of the chord opens. -/
def opened (i : Nat) (window : Millis) (k : Key) (instant serial : Nat) : Buffer :=
  ⟨[(k, instant)], [i], ⟨after instant window.toNat, serial⟩⟩

theorem Isolated.press_opens (h : Isolated rules i m ks window) (hk : k ∈ ks) (gates : s.gatesOpen m.gates = true)
    (instant : Nat) :
    press rules k instant true s =
      { s with serial := s.serial + 1, buffer := some (opened i window k instant (s.serial + 1)) }.note
        (.buffered k [i] s.flags) := by
  have together : rules[i]?.any (·.trigger.isTogether) = true := by
    rw [h.placed, Option.any_some, h.trigger]
    rfl
  have width : (do (← rules[← [i].head?]?).trigger.window? : Option Millis) = some window := by
    show (rules[i]?.bind fun e => e.trigger.window?) = some window
    rw [h.placed, Option.bind_some, h.trigger]
    rfl
  unfold press
  rw [h.findRule_fresh hk gates]
  simp only [together, if_true]
  unfold startBuffer
  simp only [h.openCandidates hk gates, width]
  rfl

/-! ## Timers that fire meanwhile -/

theorem settle_dispatches (isDue : Deadline → Bool) (s : State) :
    dispatches (settle rules isDue s).journal = dispatches s.journal := by
  have kept : ∀ s d timer, dispatches (fire rules s d timer).journal = dispatches s.journal := fun s d timer => by
    rw [dispatches, fire_beginnings, dispatches]
  exact settle_keeps (f := fun s => dispatches s.journal) kept isDue s

theorem pass_dispatches (t : Nat) (s : State) : dispatches (pass rules t s).journal = dispatches s.journal :=
  (settle_dispatches _ _).trans (tick_dispatches s t)

theorem Akin.pass (t : Nat) {s s' : State} (h : Akin rules rules s s') :
    Akin rules rules (pass rules t s) (pass rules t s') := by
  have ticked := h.tick t
  unfold Engine.pass
  rw [ticked.now]
  exact ticked.settleBy _

/-! ## Keys that gather -/

def Buffer.add (b : Buffer) (k : Key) (instant : Nat) : Buffer := { b with keys := b.keys ++ [(k, instant)] }

theorem Buffer.add_names (b : Buffer) (k : Key) (instant : Nat) : (b.add k instant).names = b.names ++ [k] := by
  simp [Buffer.names, Buffer.add]

/-- The buffer holds some keys of the chord, and no press holds one. -/
structure Gathers (i : Nat) (ks : List Key) (s : State) (b : Buffer) : Prop where
  held : s.buffer = some b
  candidates : b.candidates = [i]
  distinct : b.names.Nodup
  sub : b.names ⊆ ks
  up : ∀ k ∈ ks, k ∉ s.heldLists.flatten
  early : s.now < b.deadline.instant

theorem Gathers.advanceTo_within {b : Buffer} (g : Gathers i ks s b) (early : max s.now t < b.deadline.instant) :
    advanceTo rules t s = pass rules t s :=
  advanceTo_pass fun c hc => by
    obtain rfl := Option.some.inj (g.held.symm.trans hc)
    exact early

variable (rules m ks) in
/-- No key is held back, the keys of the chord are up, and its gates are open once the timers have fired that are
due by an instant. -/
structure Ready (instant : Nat) (s : State) : Prop where
  free : s.buffer = none
  up : ∀ k ∈ ks, s.isDown k = false
  gates : (advanceTo rules instant s).gatesOpen m.gates = true

theorem Gathers.more {b : Buffer} (g : Gathers i ks s b) (hk : k ∈ ks) (fresh : k ∉ b.names) :
    (b.names ++ [k]).Nodup ∧ b.names ++ [k] ⊆ ks :=
  ⟨List.concat_eq_append ▸ g.distinct.concat fresh,
    List.append_subset.2 ⟨g.sub, List.cons_subset.2 ⟨hk, List.nil_subset ks⟩⟩⟩

/-- A first key of the chord goes down once the due timers have fired. -/
theorem Isolated.opens (h : Isolated rules i m ks window) (r : Ready rules m ks t s) (hk : k ∈ ks) (later : s.now ≤ t) :
    keyDown rules k t s = { (pass rules t s).note (.accepted k t) with
      serial := (pass rules t s).serial + 1
      buffer := some (opened i window k t ((pass rules t s).serial + 1)) }.note
        (.buffered k [i] (pass rules t s).flags) := by
  have passed : advanceTo rules t s = pass rules t s := advanceTo_pass fun b hb => by
    rw [r.free] at hb
    cases hb
  have free : (pass rules t s).buffer = none := (pass_buffer t s).trans r.free
  have isUp : (pass rules t s).isDown k = false := (pass_isDown t s k).trans (r.up k hk)
  rw [keyDown_up (passed ▸ isUp), passed, accept_free free, pass_now later]
  exact h.press_opens (s := (pass rules t s).note (.accepted k t)) hk (passed ▸ r.gates) t

theorem Isolated.accepts (h : Isolated rules i m ks window) {ps : List Key} (distinct : ps.Nodup) (sub : ps ⊆ ks) :
    m.trigger.accepts ps = true := by
  have room : ps.length ≤ ks.length := (List.subperm_of_subset distinct sub).length_le
  rw [h.trigger, Trigger.accepts, decide_eq_true room, Bool.true_and, List.all_eq_true]
  exact fun k hk => List.contains_iff_mem.2 (sub hk)

theorem Isolated.complete (h : Isolated rules i m ks window) {b : Buffer} (candidates : b.candidates = [i]) :
    complete? rules b = if b.names.length = ks.length then some i else none := by
  have size : b.names.length = b.keys.length := List.length_map _
  have keys : triggerKeys rules i = ks := (triggerKeys_eq h.placed).trans (congrArg Trigger.keys h.trigger)
  rw [complete?, candidates, List.find?_singleton, isComplete, keys, size]
  by_cases full : b.keys.length = ks.length
  · rw [if_pos full, if_pos (beq_iff_eq.2 full.symm)]
  · rw [if_neg full, if_neg fun h => full (beq_iff_eq.1 h).symm]

theorem Isolated.extend_eq (h : Isolated rules i m ks window) {b : Buffer} (candidates : b.candidates = [i])
    (distinct : (b.names ++ [k]).Nodup) (sub : b.names ++ [k] ⊆ ks) (t : Nat) (s : State) :
    extend rules b k t s =
      if b.names.length + 1 = ks.length then finish rules (b.add k t) i { s with buffer := some (b.add k t) }
      else { s with buffer := some (b.add k t) } := by
  have narrowed : (b.candidates.filter fun j => rules[j]?.any fun e => e.trigger.accepts (b.names ++ [k])) = [i] := by
    rw [candidates, List.filter_cons_of_pos, List.filter_nil]
    rw [h.placed, Option.any_some]
    exact h.accepts distinct sub
  have added : ({ b with keys := b.keys ++ [(k, t)], candidates := [i] } : Buffer) = b.add k t := by
    unfold Buffer.add
    rw [← candidates]
  have full : (b.add k t).names.length = b.names.length + 1 := by
    rw [Buffer.add_names, List.length_append, List.length_singleton]
  have complete := h.complete (b := b.add k t) candidates
  -- no other candidate is left to wait for
  have alone : isWaiting rules (b.add k t) i = false := by
    unfold isWaiting Buffer.add
    simp [candidates]
  rw [full] at complete
  unfold extend
  simp only
  rw [show b.keys.map (·.1) = b.names from rfl, narrowed]
  simp only [List.isEmpty_cons, Bool.false_eq_true, if_false, added, tryFinish, complete]
  by_cases last : b.names.length + 1 = ks.length
  · simp only [last, if_true, alone, Bool.false_eq_true, if_false]
  · simp only [last, if_false]

/-- A further key of the chord joins the others, and the last one lets it fire. -/
theorem Gathers.joins (h : Isolated rules i m ks window) {b : Buffer} (g : Gathers i ks s b) (hk : k ∈ ks)
    (fresh : k ∉ b.names) (later : s.now ≤ t) (early : t < b.deadline.instant) :
    keyDown rules k t s =
      if b.names.length + 1 = ks.length then
        finish rules (b.add k t) i { (pass rules t s).note (.accepted k t) with buffer := some (b.add k t) }
      else { (pass rules t s).note (.accepted k t) with buffer := some (b.add k t) } := by
  have passed : advanceTo rules t s = pass rules t s := g.advanceTo_within (by omega)
  have held : (pass rules t s).buffer = some b := (pass_buffer t s).trans g.held
  have isUp : (pass rules t s).isDown k = false := by
    rw [pass_isDown]
    exact State.isDown_false (g.up k hk) (State.buffered_of_some g.held ▸ fresh)
  obtain ⟨distinct, sub⟩ := g.more hk fresh
  rw [keyDown_up (passed ▸ isUp), passed, accept_held held, pass_now later]
  exact h.extend_eq g.candidates distinct sub t _

/-! ## One key more -/

theorem Isolated.starts (h : Isolated rules i m ks window) (r : Ready rules m ks t s) (hk : k ∈ ks) (later : s.now ≤ t)
    (early : t < after t window.toNat) :
    Gathers i ks (keyDown rules k t s) (opened i window k t ((pass rules t s).serial + 1)) ∧
      (keyDown rules k t s).now = t ∧ dispatches (keyDown rules k t s).journal = dispatches s.journal := by
  rw [h.opens r hk later]
  refine ⟨⟨rfl, rfl, List.nodup_singleton k, List.cons_subset.2 ⟨hk, List.nil_subset ks⟩, ?_, ?_⟩, pass_now later, ?_⟩
  · intro j hj
    show j ∉ (pass rules t s).heldLists.flatten
    rw [pass_heldLists]
    exact State.unheld (r.up j hj)
  · show (pass rules t s).now < after t window.toNat
    rw [pass_now later]
    exact early
  · exact (dispatches_note rfl _).trans ((dispatches_note rfl _).trans (pass_dispatches t s))

theorem Gathers.waits (h : Isolated rules i m ks window) {b : Buffer} (g : Gathers i ks s b) (hk : k ∈ ks)
    (fresh : k ∉ b.names) (later : s.now ≤ t) (early : t < b.deadline.instant)
    (short : b.names.length + 1 ≠ ks.length) :
    Gathers i ks (keyDown rules k t s) (b.add k t) ∧ (keyDown rules k t s).now = t ∧
      dispatches (keyDown rules k t s).journal = dispatches s.journal := by
  obtain ⟨distinct, sub⟩ := g.more hk fresh
  rw [← b.add_names k t] at distinct sub
  rw [g.joins h hk fresh later early, if_neg short]
  refine ⟨⟨rfl, g.candidates, distinct, sub, ?_, ?_⟩, pass_now later, ?_⟩
  · intro j hj
    show j ∉ (pass rules t s).heldLists.flatten
    rw [pass_heldLists]
    exact g.up j hj
  · show (pass rules t s).now < b.deadline.instant
    rw [pass_now later]
    exact early
  · exact (dispatches_note rfl _).trans (pass_dispatches t s)

theorem Gathers.fires (h : Isolated rules i m ks window) {b : Buffer} (g : Gathers i ks s b) (hk : k ∈ ks)
    (fresh : k ∉ b.names) (later : s.now ≤ t) (early : t < b.deadline.instant) (last : b.names.length + 1 = ks.length) :
    (keyDown rules k t s).buffer = none ∧
      dispatches (keyDown rules k t s).journal = dispatches s.journal ++ [(b.names ++ [k], some i)] := by
  rw [g.joins h hk fresh later early, if_pos last, finish_dispatches]
  refine ⟨(finish_frame rules _ _ _).1, congrArg₂ (fun before now => before ++ [(now, some i)]) ?_ (b.add_names k t)⟩
  exact (dispatches_note rfl _).trans (pass_dispatches t s)

/-! ## All keys -/

def keysDown (ps : List (Key × Nat)) : List Input := ps.map fun p => .down p.1 p.2

/-- Instants that follow each other do not fall behind the clock, and they come before a limit. -/
structure InTime (now limit : Nat) (ts : List Nat) : Prop where
  sorted : (now :: ts).IsChain (· ≤ ·)
  early : ∀ t ∈ ts, t < limit

theorem InTime.cons {now limit : Nat} {ts : List Nat} (h : InTime now limit (t :: ts)) :
    now ≤ t ∧ t < limit ∧ InTime t limit ts := by
  obtain ⟨first, rest⟩ := List.isChain_cons_cons.1 h.sorted
  exact ⟨first, h.early t List.mem_cons_self, rest, fun u hu => h.early u (List.mem_cons_of_mem t hu)⟩

/-- The keys that are there, the next one, and the rest make up the chord. -/
theorem Isolated.next (h : Isolated rules i m ks window) {b : Buffer} {rest : List Key}
    (whole : (b.names ++ k :: rest).Perm ks) (t : Nat) :
    k ∈ ks ∧ k ∉ b.names ∧ b.names.length + 1 + rest.length = ks.length ∧ ((b.add k t).names ++ rest).Perm ks := by
  have apart := (List.nodup_append.1 (whole.nodup_iff.2 h.nodup)).2.2
  have size := whole.length_eq
  rw [List.length_append, List.length_cons] at size
  refine ⟨whole.mem_iff.1 (List.mem_append_right _ List.mem_cons_self), fun member => ?_, by omega, ?_⟩
  · exact apart k member k List.mem_cons_self rfl
  · rwa [Buffer.add_names, ← List.append_cons]

theorem Gathers.gather (h : Isolated rules i m ks window) {ps : List (Key × Nat)} {rest : List Key} (left : rest ≠ [])
    {b : Buffer} (g : Gathers i ks s b) (whole : (b.names ++ (ps.map (·.1) ++ rest)).Perm ks)
    (intime : InTime s.now b.deadline.instant (ps.map (·.2))) :
    ∃ c, Gathers i ks ((keysDown ps).foldl (step rules) s) c ∧ c.names = b.names ++ ps.map (·.1) ∧
      c.deadline = b.deadline ∧ dispatches ((keysDown ps).foldl (step rules) s).journal = dispatches s.journal := by
  induction ps generalizing s b with
  | nil => exact ⟨b, g, (List.append_nil _).symm, rfl, rfl⟩
  | cons p ps ih =>
    obtain ⟨k, t⟩ := p
    have whole : (b.names ++ k :: (ps.map (·.1) ++ rest)).Perm ks := whole
    obtain ⟨member, fresh, size, further⟩ := h.next whole t
    obtain ⟨later, early, others⟩ := intime.cons
    have more := List.length_pos_of_ne_nil left
    have room : (ps.map (·.1) ++ rest).length = (ps.map (·.1)).length + rest.length := List.length_append
    obtain ⟨g', now, quiet⟩ := g.waits h member fresh later early (by omega)
    obtain ⟨c, gathered, names, deadline, still⟩ := ih g' further (now.symm ▸ others)
    refine ⟨c, gathered, ?_, deadline, still.trans quiet⟩
    rw [names, Buffer.add_names, ← List.append_cons, List.map_cons]

theorem Gathers.completes (h : Isolated rules i m ks window) {p : Key × Nat} {ps : List (Key × Nat)} {b : Buffer}
    (g : Gathers i ks s b) (whole : (b.names ++ (p :: ps).map (·.1)).Perm ks)
    (intime : InTime s.now b.deadline.instant ((p :: ps).map (·.2))) :
    ((keysDown (p :: ps)).foldl (step rules) s).buffer = none ∧
      dispatches ((keysDown (p :: ps)).foldl (step rules) s).journal =
        dispatches s.journal ++ [(b.names ++ (p :: ps).map (·.1), some i)] := by
  induction ps generalizing p s b with
  | nil =>
    obtain ⟨k, t⟩ := p
    obtain ⟨member, fresh, size, -⟩ := h.next (k := k) whole t
    obtain ⟨later, early, -⟩ := intime.cons
    exact g.fires h member fresh later early size
  | cons q ps ih =>
    obtain ⟨k, t⟩ := p
    obtain ⟨member, fresh, size, further⟩ := h.next (k := k) whole t
    obtain ⟨later, early, others⟩ := intime.cons
    have room : ((q :: ps).map (·.1)).length = ps.length + 1 := List.length_map _
    obtain ⟨g', now, quiet⟩ := g.waits h member fresh later early (by omega)
    have completed := ih g' further (now.symm ▸ others)
    rw [quiet, Buffer.add_names, ← List.append_cons] at completed
    exact completed

/-! ## In whatever order -/

theorem Akin.finish {b c : Buffer} {s t : State} (names : b.names.Perm c.names)
    (last : b.lastKey s.now = c.lastKey t.now) (placed : rules[i]? = some m) (akin : Akin rules rules s t) :
    Akin rules rules (finish rules b i s) (finish rules c i t) := by
  obtain ⟨ls, hs, -⟩ := handOver_eq rules b i s
  obtain ⟨ls', ht, -⟩ := handOver_eq rules c i t
  rw [finish_eq, finish_eq, last, hs, ht]
  exact ((akin.holding none none).noteAll ls ls').dispatchRule names placed placed _

theorem Gathers.full {b : Buffer} (g : Gathers i ks s b) (hk : k ∈ ks) (fresh : k ∉ b.names)
    (last : b.names.length + 1 = ks.length) (t : Nat) : (b.add k t).names.Perm ks := by
  obtain ⟨distinct, sub⟩ := g.more hk fresh
  rw [Buffer.add_names]
  refine (List.subperm_of_subset distinct sub).perm_of_length_le ?_
  rw [List.length_append, List.length_singleton]
  exact Nat.le_of_eq last.symm

section
variable {u : State} {b c : Buffer}

theorem Gathers.joins_akin (h : Isolated rules i m ks window) (g : Gathers i ks s b) (g' : Gathers i ks u c)
    (akin : Akin rules rules s u) (deadline : b.deadline = c.deadline) (size : b.names.length = c.names.length)
    {k j : Key} (hk : k ∈ ks) (hj : j ∈ ks) (fresh : k ∉ b.names) (fresh' : j ∉ c.names) {instant : Nat}
    (later : s.now ≤ instant) (early : instant < b.deadline.instant) :
    Akin rules rules (keyDown rules k instant s) (keyDown rules j instant u) := by
  have added : Akin rules rules
      { (pass rules instant s).note (.accepted k instant) with buffer := some (b.add k instant) }
      { (pass rules instant u).note (.accepted j instant) with buffer := some (c.add j instant) } :=
    ((akin.pass instant).note _ _).holding _ _
  rw [g.joins h hk fresh later early, g'.joins h hj fresh' (akin.now ▸ later) (deadline ▸ early), ← size]
  by_cases last : b.names.length + 1 = ks.length
  · rw [if_pos last, if_pos last]
    have names := (g.full hk fresh last instant).trans (g'.full hj fresh' (size ▸ last) instant).symm
    refine added.finish names ?_ h.placed
    simp [Buffer.lastKey, Buffer.add]
  · rw [if_neg last, if_neg last]
    exact added

/-- Two ways to the same keys. -/
theorem Gathers.akin (h : Isolated rules i m ks window) {p q : Key × Nat} {ps qs : List (Key × Nat)}
    (g : Gathers i ks s b) (g' : Gathers i ks u c) (akin : Akin rules rules s u) (deadline : b.deadline = c.deadline)
    (whole : (b.names ++ (p :: ps).map (·.1)).Perm ks) (whole' : (c.names ++ (q :: qs).map (·.1)).Perm ks)
    (times : (p :: ps).map (·.2) = (q :: qs).map (·.2))
    (intime : InTime s.now b.deadline.instant ((p :: ps).map (·.2))) :
    Akin rules rules ((keysDown (p :: ps)).foldl (step rules) s) ((keysDown (q :: qs)).foldl (step rules) u) := by
  induction ps generalizing p q qs s u b c with
  | nil =>
    obtain ⟨k, instant⟩ := p
    obtain ⟨j, instant'⟩ := q
    obtain ⟨rfl, rest⟩ := List.cons.inj times
    obtain rfl := List.map_eq_nil_iff.1 rest.symm
    obtain ⟨member, fresh, size, -⟩ := h.next (k := k) whole instant
    obtain ⟨member', fresh', size', -⟩ := h.next (k := j) whole' instant
    obtain ⟨later, early, -⟩ := intime.cons
    have size : b.names.length = c.names.length := by omega
    exact g.joins_akin h g' akin deadline size member member' fresh fresh' later early
  | cons p' ps ih =>
    obtain ⟨k, instant⟩ := p
    obtain ⟨j, instant'⟩ := q
    obtain ⟨rfl, rest⟩ := List.cons.inj times
    obtain ⟨q', qs, rfl, -, -⟩ := List.map_eq_cons_iff.1 rest.symm
    obtain ⟨member, fresh, size, further⟩ := h.next (k := k) whole instant
    obtain ⟨member', fresh', size', further'⟩ := h.next (k := j) whole' instant
    obtain ⟨later, early, others⟩ := intime.cons
    have left : ((p' :: ps).map (·.1)).length = ps.length + 1 := List.length_map _
    have left' : ((q' :: qs).map (·.1)).length = ps.length + 1 := by
      rw [List.length_map, ← List.length_map (f := (·.2)), ← rest, List.length_map, List.length_cons]
    have size : b.names.length = c.names.length := by omega
    obtain ⟨gathered, now, -⟩ := g.waits h member fresh later early (by omega)
    obtain ⟨gathered', -, -⟩ := g'.waits h member' fresh' (akin.now ▸ later) (deadline ▸ early) (by omega)
    have joined := g.joins_akin h g' akin deadline size member member' fresh fresh' later early
    have reached := ih gathered gathered' joined deadline further further' rest (now.symm ▸ others)
    exact reached

end

/-! ## Too few keys -/

theorem Isolated.flush_scatters (h : Isolated rules i m ks window) {b : Buffer} (sub : b.names ⊆ ks) (s : State) :
    dispatches (flush rules b s).journal = dispatches s.journal ++ b.names.map fun k => ([k], none) := by
  have replays : ∀ (ps : List (Key × Nat)) (s : State), ps.map (·.1) ⊆ ks →
      dispatches (ps.foldl (replay rules) s).journal =
        dispatches s.journal ++ (ps.map (·.1)).map fun k => ([k], none) := by
    intro ps
    induction ps with
    | nil => exact fun s _ => (List.append_nil _).symm
    | cons p ps ih =>
      intro s sub
      obtain ⟨member, others⟩ := List.cons_subset.1 sub
      have alone : dispatches (replay rules s p).journal = dispatches s.journal ++ [([p.1], none)] := by
        unfold replay press
        rw [h.findRule_alone member, dispatch_dispatches]
        exact congrArg (· ++ _) (settle_dispatches _ s)
      rw [List.foldl_cons, ih _ others, alone, List.append_assoc]
      rfl
  exact (replays b.keys _ sub).trans (congrArg (· ++ _) (dispatches_note rfl _))

theorem Gathers.lapses (h : Isolated rules i m ks window) {b : Buffer} (g : Gathers i ks s b)
    (short : b.names.length < ks.length) (due : b.deadline.instant ≤ max s.now t) :
    dispatches (advanceTo rules t s).journal = dispatches s.journal ++ b.names.map fun k => ([k], none) := by
  have incomplete : complete? rules b = none := by
    rw [h.complete g.candidates, if_neg (Nat.ne_of_lt short)]
  unfold advanceTo fireDue
  simp only [State.tick_buffer, g.held]
  rw [if_pos (s.tick_clock t ▸ due), settleBy, settle_dispatches, closeWindow]
  simp only [incomplete]
  rw [h.flush_scatters g.sub, dispatches_note rfl, settle_dispatches, tick_dispatches]

/-- If the window closes on too few keys, or if one of them goes up before, each goes down on its own. -/
theorem Gathers.scatters (h : Isolated rules i m ks window) {b : Buffer} (g : Gathers i ks s b)
    (short : b.names.length < ks.length) {j : Input}
    (ends : b.deadline.instant ≤ j.clock s.now ∨ ∃ k ∈ b.names, ∃ t, j = .up k t) :
    dispatches s.journal ++ (b.names.map fun k => ([k], none)) <+: dispatches (step rules s j).journal := by
  by_cases due : b.deadline.instant ≤ j.clock s.now
  · cases j with
    | down k t => exact g.lapses h short due ▸ keyDown_dispatches rules k t s
    | up k t =>
      rw [← g.lapses h short due, step, ← keyUp_dispatches]
      exact flushHolding_dispatches rules k _
    | advance t => exact (g.lapses h short due).symm ▸ List.prefix_rfl
    | take => exact absurd due (Nat.not_le.2 g.early)
  · obtain closed | ⟨k, member, t, rfl⟩ := ends
    · exact absurd closed due
    · have passed : advanceTo rules t s = pass rules t s := g.advanceTo_within (Nat.lt_of_not_le due)
      have held : (pass rules t s).buffer = some b := (pass_buffer t s).trans g.held
      have scattered : dispatches (step rules s (.up k t)).journal =
          dispatches s.journal ++ b.names.map fun k => ([k], none) := by
        rw [step, ← keyUp_dispatches, passed, flushHolding_held held, if_pos member, h.flush_scatters g.sub,
          pass_dispatches]
      exact scattered.symm ▸ List.prefix_rfl

/-! ## From the first key on -/

section
variable {ps : List (Key × Nat)} {first : Nat} {later : List Nat}

theorem Isolated.two (h : Isolated rules i m ks window) (whole : (ps.map (·.1)).Perm ks)
    (times : ps.map (·.2) = first :: later) :
    ∃ k p rest, ps = (k, first) :: p :: rest ∧ k ∈ ks ∧ later = (p :: rest).map (·.2) := by
  have size : ps.length = ks.length := (List.length_map _).symm.trans whole.length_eq
  have two := h.size
  match ps with
  | [] => exact absurd size (Nat.ne_of_lt (Nat.lt_of_lt_of_le Nat.two_pos two))
  | [p] => exact absurd size (Nat.ne_of_lt two)
  | (k, t) :: p :: rest =>
    obtain ⟨same, others⟩ := List.cons.inj times
    exact ⟨k, p, rest, by rw [← same], whole.mem_iff.1 List.mem_cons_self, others.symm⟩

theorem Isolated.completes (h : Isolated rules i m ks window) (r : Ready rules m ks first s)
    (whole : (ps.map (·.1)).Perm ks) (times : ps.map (·.2) = first :: later)
    (intime : InTime s.now (after first window.toNat) (first :: later)) :
    ((keysDown ps).foldl (step rules) s).buffer = none ∧
      dispatches ((keysDown ps).foldl (step rules) s).journal = dispatches s.journal ++ [(ps.map (·.1), some i)] := by
  obtain ⟨k, p, rest, rfl, member, rfl⟩ := h.two whole times
  obtain ⟨forward, early, others⟩ := intime.cons
  obtain ⟨gathers, now, quiet⟩ := h.starts r member forward early
  obtain ⟨free, fired⟩ := gathers.completes h whole (now.symm ▸ others)
  rw [quiet] at fired
  exact ⟨free, fired⟩

/-- Pressed at the same times in another order, it leaves a state that is alike. -/
theorem Isolated.alike (h : Isolated rules i m ks window) (r : Ready rules m ks first s) {qs : List (Key × Nat)}
    (whole : (ps.map (·.1)).Perm ks) (whole' : (qs.map (·.1)).Perm ks) (times : ps.map (·.2) = first :: later)
    (times' : qs.map (·.2) = first :: later) (intime : InTime s.now (after first window.toNat) (first :: later)) :
    Alike rules ((keysDown ps).foldl (step rules) s) ((keysDown qs).foldl (step rules) s) := by
  have free := (h.completes r whole times intime).1
  have free' := (h.completes r whole' times' intime).1
  obtain ⟨k, p, rest, rfl, member, rfl⟩ := h.two whole times
  obtain ⟨j, q, rest', rfl, member', same⟩ := h.two whole' times'
  obtain ⟨forward, early, others⟩ := intime.cons
  obtain ⟨gathers, now, -⟩ := h.starts r member forward early
  obtain ⟨gathers', now', -⟩ := h.starts r member' forward early
  have started : Akin rules rules (keyDown rules k first s) (keyDown rules j first s) := by
    rw [h.opens r member forward, h.opens r member' forward]
    exact (((Akin.refl (pass rules first s)).note _ _).opening _ _ _).note _ _
  have akin := gathers.akin h gathers' started rfl whole whole' same (now.symm ▸ others)
  exact ⟨akin, free.trans free'.symm⟩

/-- With too few keys, each goes down on its own as soon as the window closes or one of them goes up. -/
theorem Isolated.scatters (h : Isolated rules i m ks window) (r : Ready rules m ks first s) {rest : List Key}
    (left : rest ≠ []) (whole : (ps.map (·.1) ++ rest).Perm ks) (times : ps.map (·.2) = first :: later)
    (intime : InTime s.now (after first window.toNat) (first :: later)) {j : Input}
    (ends : after first window.toNat ≤ j.clock ((keysDown ps).foldl (step rules) s).now ∨
      ∃ k ∈ ps.map (·.1), ∃ t, j = .up k t) :
    dispatches s.journal ++ ((ps.map (·.1)).map fun k => ([k], none)) <+:
      dispatches (step rules ((keysDown ps).foldl (step rules) s) j).journal := by
  obtain ⟨⟨k, t⟩, others, rfl, rfl, rfl⟩ := List.map_eq_cons_iff.1 times
  have member : k ∈ ks := whole.mem_iff.1 List.mem_cons_self
  obtain ⟨forward, early, following⟩ := intime.cons
  obtain ⟨gathers, now, quiet⟩ := h.starts r member forward early
  obtain ⟨b, gathered, names, deadline, still⟩ := gathers.gather h left whole (now.symm ▸ following)
  have names : b.names = ((k, t) :: others).map (·.1) := names
  have short : b.names.length < ks.length := by
    have some_left := List.length_pos_of_ne_nil left
    have size := whole.length_eq
    rw [List.length_append, ← names] at size
    omega
  have scattered := gathered.scatters h short (j := j) (by rw [names, deadline]; exact ends)
  rw [still, quiet, names] at scattered
  exact scattered

end

end

end KeyRules.Engine
