import KeyRules.Proofs.Engine.Reachable
import Mathlib.Data.List.Nodup
import Mathlib.Data.List.Perm.Basic

/-!
# Presses and their delayed actions

Every press in flight has a number of its own, and so has every delayed action. A delayed action belongs to one
press: it rests while the press is in flight, and its countdown runs once the press has ended
(`Reachable.orderly`).
-/

namespace KeyRules.Engine

section
variable {rules : List Manipulator}

variable (rules) in
structure Orderly (s : State) : Prop where
  presses_nodup : (s.presses.map (·.id)).Nodup
  press_le : ∀ p ∈ s.presses, p.id ≤ s.serial
  pending_nodup : (s.pending.map (·.press)).Nodup
  pending_le : ∀ d ∈ s.pending, d.press ≤ s.serial
  /-- The countdown rests exactly while the press is in flight. -/
  resting_iff : ∀ d ∈ s.pending, d.deadline = none ↔ d.press ∈ s.presses.map (·.id)
  rule_eq : ∀ d ∈ s.pending, ∀ p ∈ s.presses, p.id = d.press → p.rule = some d.rule
  delayed : ∀ d ∈ s.pending, ∃ m, rules[d.rule]? = some m ∧ m.delayed.isSome = true

theorem orderly_start : Orderly rules {} := by
  constructor <;> simp

theorem Orderly.congr {s t : State} (h : Orderly rules s) (hp : t.presses = s.presses)
    (hd : t.pending = s.pending) (hs : t.serial = s.serial) : Orderly rules t := by
  obtain ⟨flags, presses, pending, armed, buffer, output, now, serial, journal⟩ := t
  subst hp hd hs
  exact { h with }

theorem Orderly.note {s : State} (h : Orderly rules s) (i : Incident) : Orderly rules (s.note i) :=
  h.congr rfl rfl rfl

/-- Numbers, rules and delayed actions are all in the bare state. -/
theorem orderly_bare {s : State} : Orderly rules s.bare ↔ Orderly rules s := by
  have hm : (s.presses.map Press.bare).map (·.id) = s.presses.map (·.id) := by simp [Function.comp_def]
  constructor
  · intro h
    exact {
      presses_nodup := hm ▸ h.presses_nodup
      press_le := fun p hp => h.press_le p.bare (List.mem_map_of_mem hp)
      pending_nodup := h.pending_nodup
      pending_le := h.pending_le
      resting_iff := fun d hd => hm ▸ h.resting_iff d hd
      rule_eq := fun d hd p hp he => h.rule_eq d hd p.bare (List.mem_map_of_mem hp) he
      delayed := h.delayed }
  · intro h
    exact {
      presses_nodup := hm.symm ▸ h.presses_nodup
      press_le := fun p hp => by
        obtain ⟨q, hq, rfl⟩ := List.mem_map.1 hp
        exact h.press_le q hq
      pending_nodup := h.pending_nodup
      pending_le := h.pending_le
      resting_iff := fun d hd => (h.resting_iff d hd).trans (by rw [State.bare_presses, hm])
      rule_eq := fun d hd p hp he => by
        obtain ⟨q, hq, rfl⟩ := List.mem_map.1 hp
        exact h.rule_eq d hd q hq he
      delayed := h.delayed }

theorem Orderly.press_unique {s : State} (h : Orderly rules s) {p q : Press} (hp : p ∈ s.presses)
    (hq : q ∈ s.presses) (he : p.id = q.id) : p = q :=
  List.inj_on_of_nodup_map h.presses_nodup hp hq he

def State.ids (s : State) : List Nat := s.presses.map (·.id)

theorem State.ids_bare (s : State) : s.bare.ids = s.ids := by
  simp [State.ids, Function.comp_def]

theorem State.ids_of_bare {s t : State} (h : t.bare = s.bare) : t.ids = s.ids := by
  rw [← State.ids_bare, h, State.ids_bare]

/-- The item of a number beside all others. -/
theorem perm_cons_filter {α : Type} {f : α → Nat} {l : List α} (hn : (l.map f).Nodup) {a : α} (ha : a ∈ l) :
    l.Perm (a :: l.filter fun b => f b != f a) := by
  induction l with
  | nil => cases ha
  | cons b l ih =>
    obtain ⟨hb, hn⟩ := List.nodup_cons.1 hn
    rcases List.mem_cons.1 ha with rfl | ha
    · have hf : (l.filter fun b => f b != f a) = l := by
        refine List.filter_eq_self.2 fun c hc => bne_iff_ne.2 fun he => hb ?_
        exact List.mem_map.2 ⟨c, hc, he⟩
      rw [List.filter_cons_of_neg (by simp), hf]
    · have hne : f b ≠ f a := fun he => hb (List.mem_map.2 ⟨a, ha, he.symm⟩)
      rw [List.filter_cons_of_pos (by simpa using hne)]
      exact ((ih hn ha).cons b).trans (.swap a b _)

theorem perm_updatePress {s : State} (hn : s.ids.Nodup) {p : Press} (hp : p ∈ s.presses) (f : Press → Press) :
    (s.updatePress p.id f).presses.Perm (f p :: (s.drop p.id).presses) := by
  have hm : (s.drop p.id).presses.map (fun q => if q.id = p.id then f q else q) = (s.drop p.id).presses := by
    refine (List.map_congr_left fun q hq => ?_).trans (List.map_id _)
    exact if_neg (bne_iff_ne.1 (List.mem_filter.1 hq).2)
  have hu := (perm_cons_filter hn hp).map fun q => if q.id = p.id then f q else q
  rw [List.map_cons, if_pos rfl] at hu
  exact hm ▸ hu

theorem State.updatePress_ids {f : Press → Press} (hf : ∀ p, (f p).id = p.id) (s : State) (id : Nat) :
    (s.updatePress id f).presses.map (·.id) = s.presses.map (·.id) := by
  simp only [updatePress, List.map_map]
  refine List.map_congr_left fun p _ => ?_
  by_cases h : p.id = id <;> simp [h, hf]

theorem Orderly.updatePress {f : Press → Press} (hf : ∀ p, (f p).id = p.id ∧ (f p).rule = p.rule)
    {s : State} (h : Orderly rules s) (id : Nat) : Orderly rules (s.updatePress id f) where
  presses_nodup := by
    rw [State.updatePress_ids fun p => (hf p).1]
    exact h.presses_nodup
  press_le p hp := by
    obtain ⟨q, hq, rfl⟩ := List.mem_map.1 hp
    split
    · exact (hf q).1 ▸ h.press_le q hq
    · exact h.press_le q hq
  pending_nodup := h.pending_nodup
  pending_le := h.pending_le
  resting_iff d hd := by
    rw [State.updatePress_ids fun p => (hf p).1]
    exact h.resting_iff d hd
  rule_eq d hd p hp he := by
    obtain ⟨q, hq, rfl⟩ := List.mem_map.1 hp
    by_cases hi : q.id = id
    · rw [if_pos hi] at he ⊢
      rw [(hf q).2]
      exact h.rule_eq d hd q hq ((hf q).1 ▸ he)
    · rw [if_neg hi] at he ⊢
      exact h.rule_eq d hd q hq he
  delayed := h.delayed

theorem Orderly.sublist {s : State} (h : Orderly rules s) {ds : List Pending} (hs : ds.Sublist s.pending) :
    Orderly rules { s with pending := ds } where
  presses_nodup := h.presses_nodup
  press_le := h.press_le
  pending_nodup := h.pending_nodup.sublist (hs.map _)
  pending_le d hd := h.pending_le d (hs.subset hd)
  resting_iff d hd := h.resting_iff d (hs.subset hd)
  rule_eq d hd := h.rule_eq d (hs.subset hd)
  delayed d hd := h.delayed d (hs.subset hd)

theorem Orderly.forgetPending {s : State} (h : Orderly rules s) (id : Nat) :
    Orderly rules (s.forgetPending id) := h.sublist List.filter_sublist

theorem Orderly.disturb {s : State} (h : Orderly rules s) :
    Orderly rules { s with presses := s.presses.map Press.disturb, pending := s.resting } := by
  have hm : (s.presses.map Press.disturb).map (·.id) = s.presses.map (·.id) := by
    simp [Function.comp_def, Press.disturb]
  have hr := h.sublist (List.filter_sublist : s.resting.Sublist s.pending)
  exact {
    presses_nodup := hm.symm ▸ h.presses_nodup
    press_le := fun p hp => by
      obtain ⟨q, hq, rfl⟩ := List.mem_map.1 hp
      exact h.press_le q hq
    pending_nodup := hr.pending_nodup
    pending_le := hr.pending_le
    resting_iff := fun d hd => (hr.resting_iff d hd).trans (by rw [hm])
    rule_eq := fun d hd p hp he => by
      obtain ⟨q, hq, rfl⟩ := List.mem_map.1 hp
      exact hr.rule_eq d hd q hq he
    delayed := hr.delayed }

theorem Orderly.addPress {s : State} (h : Orderly rules s) {p : Press} {n : Nat} (fresh : s.serial < p.id)
    (hn : p.id ≤ n) : Orderly rules { s with presses := s.presses ++ [p], serial := n } where
  presses_nodup := by
    rw [List.map_append, List.nodup_append]
    refine ⟨h.presses_nodup, by simp, ?_⟩
    intro a ha b hb
    obtain ⟨q, hq, rfl⟩ := List.mem_map.1 ha
    rw [List.map_singleton, List.mem_singleton] at hb
    have := h.press_le q hq
    omega
  press_le q hq := by
    rcases List.mem_append.1 hq with hq | hq
    · have := h.press_le q hq
      show q.id ≤ n
      omega
    · rw [List.mem_singleton.1 hq]
      exact hn
  pending_nodup := h.pending_nodup
  pending_le d hd := by
    have := h.pending_le d hd
    show d.press ≤ n
    omega
  resting_iff d hd := by
    have := h.pending_le d hd
    rw [h.resting_iff d hd, List.map_append, List.mem_append, List.map_singleton, List.mem_singleton]
    exact ⟨.inl, fun hm => hm.resolve_right (by omega)⟩
  rule_eq d hd q hq he := by
    rcases List.mem_append.1 hq with hq | hq
    · exact h.rule_eq d hd q hq he
    · have := h.pending_le d hd
      rw [List.mem_singleton.1 hq] at he
      omega
  delayed := h.delayed

theorem Orderly.addPending {s : State} (h : Orderly rules s) {p : Press} {d : Pending}
    (hp : p ∈ s.presses) (hd : d.press = p.id) (rests : d.deadline = none) (hr : p.rule = some d.rule)
    (hm : ∃ m, rules[d.rule]? = some m ∧ m.delayed.isSome = true) (fresh : ∀ c ∈ s.pending, c.press ≠ p.id) :
    Orderly rules { s with pending := s.pending ++ [d] } where
  presses_nodup := h.presses_nodup
  press_le := h.press_le
  pending_nodup := by
    rw [List.map_append, List.nodup_append]
    refine ⟨h.pending_nodup, by simp, ?_⟩
    intro a ha b hb
    obtain ⟨c, hc, rfl⟩ := List.mem_map.1 ha
    rw [List.map_singleton, List.mem_singleton] at hb
    rw [hb, hd]
    exact fresh c hc
  pending_le c hc := by
    rcases List.mem_append.1 hc with hc | hc
    · exact h.pending_le c hc
    · rw [List.mem_singleton.1 hc, hd]
      exact h.press_le p hp
  resting_iff c hc := by
    rcases List.mem_append.1 hc with hc | hc
    · exact h.resting_iff c hc
    · rw [List.mem_singleton.1 hc, hd]
      exact ⟨fun _ => List.mem_map_of_mem hp, fun _ => rests⟩
  rule_eq c hc q hq he := by
    rcases List.mem_append.1 hc with hc | hc
    · exact h.rule_eq c hc q hq he
    · rw [List.mem_singleton.1 hc] at he ⊢
      rw [h.press_unique hq hp (he.trans hd)]
      exact hr
  delayed c hc := by
    rcases List.mem_append.1 hc with hc | hc
    · exact h.delayed c hc
    · rw [List.mem_singleton.1 hc]
      exact hm

/-- A press ends. Its delayed action goes or starts its countdown; the others stay as they are. -/
theorem Orderly.dropPress {s t : State} (h : Orderly rules s) (id : Nat)
    (presses : t.presses = s.presses.filter fun q => q.id != id)
    (sub : (t.pending.map (·.press)).Sublist (s.pending.map (·.press)))
    (kept : ∀ c ∈ t.pending, ∃ d ∈ s.pending, c.press = d.press ∧ c.rule = d.rule ∧
      (d.press = id → c.deadline.isSome = true) ∧ (d.press ≠ id → c.deadline = d.deadline))
    (serial : s.serial ≤ t.serial) : Orderly rules t where
  presses_nodup := by
    rw [presses]
    exact h.presses_nodup.sublist (List.filter_sublist.map _)
  press_le p hp := by
    rw [presses] at hp
    exact Nat.le_trans (h.press_le p (List.mem_filter.1 hp).1) serial
  pending_nodup := h.pending_nodup.sublist sub
  pending_le c hc := by
    obtain ⟨d, hd, he, -⟩ := kept c hc
    rw [he]
    exact Nat.le_trans (h.pending_le d hd) serial
  resting_iff c hc := by
    obtain ⟨d, hd, he, -, hs, hk⟩ := kept c hc
    have hm : c.press ∈ t.presses.map (·.id) ↔ d.press ∈ s.presses.map (·.id) ∧ d.press ≠ id := by
      rw [presses, he]
      simp only [List.mem_map, List.mem_filter, bne_iff_ne]
      constructor
      · rintro ⟨p, ⟨hp, hne⟩, hpe⟩
        exact ⟨⟨p, hp, hpe⟩, hpe ▸ hne⟩
      · rintro ⟨⟨p, hp, hpe⟩, hne⟩
        exact ⟨p, ⟨hp, hpe ▸ hne⟩, hpe⟩
    rw [hm]
    by_cases hid : d.press = id
    · have := hs hid
      simp [hid, Option.isSome_iff_ne_none.1 this]
    · rw [hk hid, h.resting_iff d hd]
      simp [hid]
  rule_eq c hc p hp he := by
    obtain ⟨d, hd, hpe, hre, -⟩ := kept c hc
    rw [presses] at hp
    rw [hre]
    exact h.rule_eq d hd p (List.mem_filter.1 hp).1 (he.trans hpe)
  delayed c hc := by
    obtain ⟨d, hd, -, hre, -⟩ := kept c hc
    rw [hre]
    exact h.delayed d hd

/-! ## Operations -/

theorem Press.fired_of_id {ps : List Press} {id : Nat} {q : Press}
    (hq : q ∈ ps.map fun p => if p.id = id then p.fired else p) :
    (q.id = id ∧ q.holdFired = true ∧ q.holdTimer = none) ∨ q.id ≠ id ∧ q ∈ ps := by
  obtain ⟨p, hp, rfl⟩ := List.mem_map.1 hq
  by_cases h : p.id = id
  · rw [if_pos h]
    exact .inl ⟨h, rfl, rfl⟩
  · rw [if_neg h]
    exact .inr ⟨h, hp⟩

theorem Orderly.fire {s : State} (h : Orderly rules s) (d : Deadline) (timer : Timer) :
    Orderly rules (fire rules s d timer) := by
  have hd := orderly_bare.2 (h.note (.fired d))
  rw [← orderly_bare]
  cases timer with
  | countdown p =>
    rw [Engine.fire, bare_fireCountdown]
    exact ((hd.forgetPending p.press).note _).note _
  | hold p =>
    have hu := hd.updatePress (f := Press.fired) (fun _ => ⟨rfl, rfl⟩) p.id
    rw [Engine.fire]
    cases hp : p.rule with
    | none =>
      rw [bare_fireHold_plain rules _ hp]
      exact hu
    | some i =>
      rw [bare_fireHold rules _ hp]
      split
      · exact (hu.note _).forgetPending p.id
      · exact hu.note _

theorem Orderly.dispatch {s : State} (h : Orderly rules s) (keys : List Key) (rule : Option Nat)
    (instant : Nat) : Orderly rules (dispatch rules keys rule instant s) := by
  have hd := (orderly_bare.2 h).disturb
  rw [← orderly_bare]
  obtain ⟨i, m, rfl, hm⟩ | hr := rule_cases rules rule
  · rw [bare_dispatch_rule rules keys hm]
    have ha := hd.addPress (p := begun (s.serial + 1) keys i instant m)
      (n := s.serial + 1 + if m.holdThreshold.isSome then 1 else 0) (Nat.lt_succ_self _) (Nat.le_add_right _ _)
    unfold awaited
    cases hl : m.delayed with
    | none => exact ha.congr rfl (List.append_nil _) rfl
    | some l =>
      refine (ha.addPending (p := begun (s.serial + 1) keys i instant m)
        (d := { press := s.serial + 1, owners := keys, rule := i }) ?_ rfl rfl rfl ⟨m, hm, ?_⟩ ?_).congr
          rfl rfl rfl
      · simp
      · rw [hl]
        rfl
      · intro c hc
        have := hd.pending_le c hc
        exact Nat.ne_of_lt (Nat.lt_succ_of_le this)
  · rw [bare_dispatch_plain rules keys hr]
    exact (hd.addPress (Nat.lt_succ_self _) (Nat.le_refl _)).congr rfl rfl rfl

theorem startCountdown_ids (id instant : Nat) (m : Manipulator) (s : State) :
    (startCountdown id m instant s).pending.map (·.press) = s.pending.map (·.press) := by
  unfold startCountdown
  cases m.delayed with
  | none => rfl
  | some l =>
    simp only [List.map_map]
    refine List.map_congr_left fun d _ => ?_
    simp only [Function.comp]
    split <;> rfl

theorem startCountdown_presses (id instant : Nat) (m : Manipulator) (s : State) :
    (startCountdown id m instant s).presses = s.presses := by
  unfold startCountdown
  split <;> rfl

theorem startCountdown_serial (id instant : Nat) (m : Manipulator) (s : State) :
    s.serial ≤ (startCountdown id m instant s).serial := by
  unfold startCountdown
  split
  · exact Nat.le_refl _
  · exact Nat.le_succ _

/-- A press that ends without a tap, or with one that does not halt. -/
theorem Orderly.startCountdown {s t : State} (h : Orderly rules s) {p : Press} (hp : p ∈ s.presses) {i : Nat}
    {m : Manipulator} (hr : p.rule = some i) (hm : rules[i]? = some m) (instant : Nat)
    (presses : t.presses = s.presses.filter fun q => q.id != p.id) (pending : t.pending = s.pending)
    (serial : t.serial = s.serial) : Orderly rules (startCountdown p.id m instant t) := by
  refine h.dropPress p.id ((startCountdown_presses ..).trans presses) ?_ ?_
    (serial ▸ startCountdown_serial p.id instant m t)
  · rw [startCountdown_ids, pending]
  · intro c hc
    obtain ⟨hc, kept⟩ | ⟨d, hd, l, n, -, hid, -, rfl⟩ := startCountdown_mem hc
    · rw [pending] at hc
      refine ⟨c, hc, rfl, rfl, fun hid => ?_, fun _ => rfl⟩
      obtain ⟨n, hn, hl⟩ := h.delayed c hc
      have he := h.rule_eq c hc p hp hid.symm
      rw [hr, Option.some.injEq] at he
      rw [← he, hm, Option.some.injEq] at hn
      have hk := kept (hn ▸ hl)
      exact Option.isSome_iff_ne_none.2 fun hd => hk ⟨hid, hd⟩
    · rw [pending] at hd
      exact ⟨d, hd, rfl, rfl, fun _ => rfl, fun hne => absurd hid hne⟩

theorem Orderly.settled {s : State} (h : Orderly rules s) {p : Press} (hp : p ∈ s.presses) {i : Nat}
    {m : Manipulator} (hr : p.rule = some i) (hm : rules[i]? = some m) (instant : Nat) :
    Orderly rules (settled p i m instant ((s.drop p.id).note (.released p.id))) := by
  unfold Engine.settled
  cases isTap m p instant with
  | false => exact h.startCountdown hp hr hm instant rfl rfl rfl
  | true =>
    simp only [Bool.true_and, if_true]
    split
    · refine h.dropPress p.id rfl (List.filter_sublist.map _) (fun c hc => ?_) (Nat.le_refl _)
      obtain ⟨hc, hne⟩ := List.mem_filter.1 hc
      exact ⟨c, hc, rfl, rfl, fun hid => by simp [hid] at hne, fun _ => rfl⟩
    · exact h.startCountdown hp hr hm instant rfl rfl rfl

theorem Orderly.dropPlain {s : State} (h : Orderly rules s) {p : Press} (hp : p ∈ s.presses)
    (hr : ∀ i, p.rule = some i → rules[i]? = none) : Orderly rules (s.drop p.id) := by
  refine h.dropPress p.id rfl (.refl _) (fun c hc => ⟨c, hc, rfl, rfl, fun hid => ?_, fun _ => rfl⟩)
    (Nat.le_refl _)
  obtain ⟨n, hn, -⟩ := h.delayed c hc
  rw [hr c.rule (h.rule_eq c hc p hp hid.symm)] at hn
  cases hn

theorem holder_mem {s : State} {k : Key} {p : Press} (h : s.holder? k = some p) :
    p ∈ s.presses ∧ k ∈ p.held := by
  have hm := List.mem_of_find?_eq_some h
  have hk := List.find?_some h
  exact ⟨List.mem_reverse.1 hm, List.contains_iff_mem.1 hk⟩

theorem Orderly.release {s : State} (h : Orderly rules s) (k : Key) (instant : Nat) :
    Orderly rules (release rules k instant s) := by
  cases hk : s.holder? k with
  | none =>
    rw [release_none rules hk]
    exact h.note _
  | some p =>
    have hb := orderly_bare.2 h
    have hp : p.bare ∈ s.bare.presses := List.mem_map_of_mem (holder_mem hk).1
    rw [← orderly_bare, bare_release rules hk]
    split
    · obtain ⟨i, m, hr, hm⟩ | hr := rule_cases rules p.rule
      · rw [bare_endPress_rule rules hr hm]
        exact hb.settled hp hr hm instant
      · rw [bare_endPress_plain rules hr]
        exact (hb.dropPlain hp hr).note _
    · exact hb.updatePress (f := Press.keep _) (fun _ => ⟨rfl, rfl⟩) p.id

theorem Orderly.handOver {s : State} (h : Orderly rules s) (b : Buffer) (i : Nat) :
    Orderly rules (handOver rules b i s) := by
  obtain ⟨more, hs, -⟩ := handOver_eq rules b i s
  rw [hs]
  exact h.congr rfl rfl rfl

theorem Orderly.finish {s : State} (h : Orderly rules s) (b : Buffer) (i : Nat) :
    Orderly rules (finish rules b i s) := by
  rw [finish_eq]
  exact (h.handOver b i).dispatch _ _ _

theorem Orderly.move {x y : Session} (h : Orderly rules x.state) (m : Move rules x y) :
    Orderly rules y.state := by
  cases m with
  | fire first => exact h.fire _ _
  | dispatch simultaneous free oldest fresh single => exact h.dispatch _ _ _
  | holdBack free oldest found together =>
    exact { h with
      press_le := fun p hp => Nat.le_succ_of_le (h.press_le p hp)
      pending_le := fun d hd => Nat.le_succ_of_le (h.pending_le d hd) }
  | join held oldest narrowed some_left => exact h.congr rfl rfl rfl
  | close held due => exact h.note _
  | finish held idle first ready => exact h.finish _ _
  | flush held => exact h.congr rfl rfl rfl

theorem Orderly.moves {x y : Session} (h : Orderly rules x.state) (m : Moves rules x y) : Orderly rules y.state := by
  induction m with
  | refl => exact h
  | tail _ m ih => exact ih.move m

/-- At every moment presses and delayed actions are in order. -/
theorem Reachable.orderly {x : Session} (h : Reachable rules x) : Orderly rules x.state := by
  induction h with
  | start => exact orderly_start
  | move _ m ih => exact ih.move m
  | @tick x _ _ instant ih =>
    obtain ⟨more, ht, -⟩ := x.state.tick_eq instant
    rw [ht]
    exact Orderly.congr ih rfl rfl rfl
  | accept _ _ _ ih => exact ih.note _
  | refuse _ _ _ ih => exact ih.note _
  | release _ _ _ ih => exact ih.release _ _
  | take _ _ ih => exact ih.congr rfl rfl rfl

end

end KeyRules.Engine
