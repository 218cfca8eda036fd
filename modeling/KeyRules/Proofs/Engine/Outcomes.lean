import KeyRules.Proofs.Engine.Keys

/-!
# Outcomes of presses

A rule is decisive if its tap and its hold settle the press and a delayed action stands in where neither does.
A press of a decisive rule keeps its delayed action until one line of the journal decides it: a tap, a hold, the
end of the countdown, or its cancellation or drop by another key. So decided presses and waiting delayed actions
together are the presses that began (`Reachable.decided`), and no press is decided twice.
-/

namespace KeyRules.Engine

/-- An event list that is the outcome of a press. -/
def Stage.isOutcome : Stage → Bool
  | tap | hold | invoked | canceled => true
  | press | release => false

/-- The press of rule `i` that the line decides. -/
def Incident.settles? (i : Nat) : Incident → Option Nat
  | emitted press rule stage => if rule = i ∧ stage.isOutcome = true then some press else none
  | dropped press rule => if rule = i then some press else none
  | _ => none

def settlements (i : Nat) (journal : List Incident) : List Nat := journal.filterMap (Incident.settles? i)

def begunBy (i : Nat) (journal : List Incident) : List Nat :=
  ((beginnings journal).filter (·.rule == some i)).map (·.press)

def awaitingOf (i : Nat) (ps : List Pending) : List Nat := (ps.filter (·.rule == i)).map (·.press)

@[simp] theorem settlements_append (i : Nat) (j more : List Incident) :
    settlements i (j ++ more) = settlements i j ++ settlements i more := List.filterMap_append

@[simp] theorem settlements_cons (i : Nat) (l : Incident) (j : List Incident) :
    settlements i (l :: j) = (l.settles? i).toList ++ settlements i j := by
  cases h : l.settles? i <;> simp [settlements, h]

@[simp] theorem settlements_nil (i : Nat) : settlements i [] = [] := rfl

@[simp] theorem awaitingOf_append (i : Nat) (ps more : List Pending) :
    awaitingOf i (ps ++ more) = awaitingOf i ps ++ awaitingOf i more := by
  simp [awaitingOf]

theorem mem_awaitingOf {i id : Nat} {ps : List Pending} :
    id ∈ awaitingOf i ps ↔ ∃ d ∈ ps, d.rule = i ∧ d.press = id := by
  simp [awaitingOf, and_assoc]

theorem settlements_bare (i : Nat) (s : State) : settlements i s.bare.journal = settlements i s.journal := by
  refine filterMap_bare (fun l hl => ?_) s.journal
  cases l <;> first | rfl | cases hl

theorem settlements_note {i : Nat} {l : Incident} (hl : l.settles? i = none) (s : State) :
    settlements i (s.note l).journal = settlements i s.journal := by
  simp [State.note, hl]

/-- The countdowns that end decide their presses. -/
theorem settlements_endings (i : Nat) (keys : List Key) (ps : List Pending) :
    settlements i (ps.map (ending keys)) = awaitingOf i ps := by
  induction ps with
  | nil => rfl
  | cons p ps ih =>
    rw [List.map_cons, settlements_cons, ih]
    by_cases hp : p.rule = i
    · unfold ending
      split <;> simp [Incident.settles?, Stage.isOutcome, awaitingOf, hp]
    · unfold ending
      split <;> simp [Incident.settles?, awaitingOf, hp]

section
variable {rules : List Manipulator} {i : Nat} {m : Manipulator}

/-- The tap and the hold of the rule settle a press, and it has a delayed action. -/
structure Decisive (m : Manipulator) : Prop where
  delayed : m.delayed.isSome = true
  tap_halts : halts m.onTap = true
  hold_halts : halts m.onHold = true

variable (i) in
structure Decided (s : State) : Prop where
  settled : (settlements i s.journal ++ awaitingOf i s.pending).Perm (begunBy i s.journal)
  undecided : ∀ p ∈ s.presses, p.rule = some i → p.holdFired = false → p.id ∈ awaitingOf i s.pending
  timed : ∀ p ∈ s.presses, p.holdTimer.isSome = true → p.holdFired = false

theorem decided_bare {s : State} : Decided i s.bare ↔ Decided i s := by
  have hb : begunBy i s.bare.journal = begunBy i s.journal := by rw [begunBy, beginnings_bare, begunBy]
  constructor
  · rintro ⟨settled, undecided, timed⟩
    rw [settlements_bare, hb] at settled
    exact ⟨settled, fun p hp => undecided p.bare (List.mem_map_of_mem hp),
      fun p hp => timed p.bare (List.mem_map_of_mem hp)⟩
  · rintro ⟨settled, undecided, timed⟩
    rw [← settlements_bare, ← hb] at settled
    refine ⟨settled, fun p hp => ?_, fun p hp => ?_⟩
    · obtain ⟨q, hq, rfl⟩ := List.mem_map.1 hp
      exact undecided q hq
    · obtain ⟨q, hq, rfl⟩ := List.mem_map.1 hp
      exact timed q hq

/-- A step that leaves presses and delayed actions alone and writes no line that counts. -/
theorem Decided.congr {s t : State} (h : Decided i s) (presses : t.presses = s.presses)
    (pending : t.pending = s.pending) (begun : beginnings t.journal = beginnings s.journal)
    (settled : settlements i t.journal = settlements i s.journal) : Decided i t where
  settled := by
    rw [settled, pending, begunBy, begun]
    exact h.settled
  undecided := by
    rw [presses, pending]
    exact h.undecided
  timed := presses ▸ h.timed

theorem Decided.note {s : State} (h : Decided i s) {l : Incident} (hb : l.begins? = none)
    (hs : l.settles? i = none) : Decided i (s.note l) :=
  h.congr rfl rfl (beginnings_note hb s) (settlements_note hs s)

theorem Orderly.awaiting_forget {s : State} (h : Orderly rules s) {d : Pending} (hd : d ∈ s.pending) :
    (awaitingOf i s.pending).Perm
      ((if d.rule = i then [d.press] else []) ++ awaitingOf i (s.forgetPending d.press).pending) := by
  have hp := (((perm_cons_filter h.pending_nodup hd).filter (·.rule == i)).map Pending.press)
  by_cases hr : d.rule = i
  · rw [List.filter_cons_of_pos (by simpa using hr)] at hp
    simpa [hr, awaitingOf, State.forgetPending] using hp
  · rw [List.filter_cons_of_neg (by simpa using hr)] at hp
    simpa [hr, awaitingOf, State.forgetPending] using hp

theorem Orderly.awaiting_other {s : State} (h : Orderly rules s) {p : Press} (hp : p ∈ s.presses)
    (hr : p.rule ≠ some i) : awaitingOf i (s.forgetPending p.id).pending = awaitingOf i s.pending := by
  unfold awaitingOf State.forgetPending
  rw [List.filter_filter]
  congr 1
  refine List.filter_congr fun d hd => ?_
  cases hi : d.rule == i with
  | false => rfl
  | true =>
    have hne : d.press ≠ p.id := by
      intro he
      refine hr ?_
      rw [h.rule_eq d hd p hp he.symm, eq_of_beq hi]
    simpa using hne

theorem mem_awaiting_forget {s : State} {id other : Nat} (hne : other ≠ id)
    (h : other ∈ awaitingOf i s.pending) : other ∈ awaitingOf i (s.forgetPending id).pending := by
  obtain ⟨d, hd, hr, rfl⟩ := mem_awaitingOf.1 h
  exact mem_awaitingOf.2 ⟨d, List.mem_filter.2 ⟨hd, bne_iff_ne.2 hne⟩, hr, rfl⟩

/-! ## Timers -/

theorem Decided.countdown {s : State} (h : Decided i s) (ho : Orderly rules s) {d : Pending} (hd : d ∈ s.pending)
    (runs : d.deadline.isSome = true) (instant : Nat) :
    Decided i (((s.forgetPending d.press).note (.invoked d.rule instant)).note
      (.emitted d.press d.rule .invoked)) where
  settled := by
    refine List.Perm.trans ?_ (h.settled.trans (.of_eq ?_))
    · have ha := ((ho.awaiting_forget (i := i) hd).append_left (settlements i s.journal)).symm
      rw [← List.append_assoc] at ha
      refine .trans (.of_eq ?_) ha
      by_cases hr : d.rule = i <;>
        simp [State.note, State.forgetPending, Incident.settles?, Stage.isOutcome, hr]
    · simp [State.note, State.forgetPending, begunBy, Incident.begins?]
  undecided p hp hr hf := by
    refine mem_awaiting_forget (fun he => ?_) (h.undecided p hp hr hf)
    -- a countdown runs, so its press has ended
    have := (ho.resting_iff d hd).2 (he ▸ List.mem_map_of_mem hp)
    rw [this] at runs
    cases runs
  timed := h.timed

theorem Decided.mark {s : State} (h : Decided i s) (id : Nat) : Decided i (s.updatePress id Press.fired) where
  settled := h.settled
  undecided q hq hi hf := by
    rcases Press.fired_of_id hq with ⟨-, ht, -⟩ | ⟨-, hq⟩
    · rw [ht] at hf
      cases hf
    · exact h.undecided q hq hi hf
  timed q hq hs := by
    rcases Press.fired_of_id hq with ⟨-, -, hn⟩ | ⟨-, hq⟩
    · rw [hn] at hs
      cases hs
    · exact h.timed q hq hs

theorem Decided.forgetOther {s : State} (h : Decided i s) {id : Nat}
    (other : awaitingOf i (s.forgetPending id).pending = awaitingOf i s.pending) :
    Decided i (s.forgetPending id) where
  settled := by
    rw [other]
    exact h.settled
  undecided q hq hi hf := by
    rw [other]
    exact h.undecided q hq hi hf
  timed := h.timed

theorem Decided.hold {s : State} (h : Decided i s) (ho : Orderly rules s) {p : Press} (hp : p ∈ s.presses)
    (timer : p.holdTimer.isSome = true) (hr : p.rule = some i) :
    Decided i (((s.updatePress p.id Press.fired).note (.emitted p.id i .hold)).forgetPending p.id) where
  settled := by
    obtain ⟨d, hdm, hdr, hdp⟩ := mem_awaitingOf.1 (h.undecided p hp hr (h.timed p hp timer))
    have ha := ((ho.awaiting_forget (i := i) hdm).append_left (settlements i s.journal)).symm
    rw [← List.append_assoc, if_pos hdr, hdp] at ha
    refine .trans (.of_eq ?_) (ha.trans (h.settled.trans (.of_eq ?_)))
    · simp [State.note, State.forgetPending, State.updatePress, Incident.settles?, Stage.isOutcome]
    · simp [State.note, State.forgetPending, State.updatePress, begunBy, Incident.begins?]
  undecided q hq hi hf := by
    rcases Press.fired_of_id hq with ⟨-, ht, -⟩ | ⟨hne, hq⟩
    · rw [ht] at hf
      cases hf
    · exact mem_awaiting_forget hne (h.undecided q hq hi hf)
  timed := (h.mark p.id).timed

theorem Decided.fire {s : State} (h : Decided i s) (ho : Orderly rules s) (hm : rules[i]? = some m)
    (hd : Decisive m) {d : Deadline} {timer : Timer} (first : earliest s.timers = some (d, timer)) :
    Decided i (fire rules s d timer) := by
  have hn : Decided i (s.note (.fired d)).bare := decided_bare.2 (h.note rfl rfl)
  have hon : Orderly rules (s.note (.fired d)).bare := orderly_bare.2 (ho.note _)
  rw [← decided_bare]
  obtain ⟨p, hp, runs, rfl⟩ | ⟨p, hp, timer, rfl⟩ := earliest_timers first
  · rw [Engine.fire, bare_fireCountdown]
    exact hn.countdown hon hp (by rw [runs]; rfl) _
  · have hb : p.bare ∈ (s.note (.fired d)).bare.presses := List.mem_map_of_mem hp
    have ht : p.bare.holdTimer.isSome = true := by
      show p.holdTimer.isSome = true
      rw [timer]
      rfl
    rw [Engine.fire]
    cases hr : p.rule with
    | none =>
      rw [bare_fireHold_plain rules _ hr]
      exact hn.mark p.id
    | some r =>
      rw [bare_fireHold rules _ hr]
      by_cases hi : r = i
      · subst hi
        rw [if_pos (by simpa [eventsOf, hm] using hd.hold_halts)]
        exact hn.hold (p := p.bare) hon hb ht hr
      · have hs : (Incident.emitted p.id r .hold).settles? i = none := by simp [Incident.settles?, hi]
        have hk := (hn.mark p.id).note (l := .emitted p.id r .hold) rfl hs
        split
        · exact hk.forgetOther (hon.awaiting_other (p := p.bare) hb (by simpa [hr] using hi))
        · exact hk

/-! ## Presses that begin and end -/

theorem awaitingOf_resting_running (i : Nat) (s : State) :
    (awaitingOf i s.running ++ awaitingOf i s.resting).Perm (awaitingOf i s.pending) := by
  rw [← awaitingOf_append]
  have hf := List.filter_append_perm (fun d : Pending => d.deadline.isSome) s.pending
  refine ((List.Perm.filter _ (.trans (.of_eq ?_) hf)).map _)
  simp [State.resting, State.running]

/-- A press in flight keeps its delayed action when another press begins. -/
theorem Decided.resting {s : State} (h : Decided i s) (ho : Orderly rules s) {p : Press} (hp : p ∈ s.presses)
    (hr : p.rule = some i) (hf : p.holdFired = false) : p.id ∈ awaitingOf i s.resting := by
  obtain ⟨d, hdm, hdr, hdp⟩ := mem_awaitingOf.1 (h.undecided p hp hr hf)
  refine mem_awaitingOf.2 ⟨d, List.mem_filter.2 ⟨hdm, ?_⟩, hdr, hdp⟩
  rw [(ho.resting_iff d hdm).2 (hdp ▸ List.mem_map_of_mem hp)]
  rfl

/-- A press begins: the countdowns that run are decided, and the new press waits if the rule is its own. -/
theorem Decided.begin {s t : State} (h : Decided i s) (ho : Orderly rules s) {p : Press} (more : List Pending)
    (presses : t.presses = s.presses.map Press.disturb ++ [p]) (pending : t.pending = s.resting ++ more)
    (settled : settlements i t.journal = settlements i s.journal ++ awaitingOf i s.running)
    (begun : begunBy i t.journal = begunBy i s.journal ++ awaitingOf i more)
    (own : p.rule = some i → p.id ∈ awaitingOf i more) (fresh : p.holdFired = false) : Decided i t where
  settled := by
    rw [settled, pending, begun, awaitingOf_append, ← List.append_assoc]
    refine List.Perm.append_right _ (.trans ?_ h.settled)
    rw [List.append_assoc]
    exact (awaitingOf_resting_running i s).append_left _
  undecided q hq hr hf := by
    rw [pending, awaitingOf_append, List.mem_append]
    rw [presses, List.mem_append, List.mem_singleton] at hq
    rcases hq with hq | rfl
    · obtain ⟨p, hp, rfl⟩ := List.mem_map.1 hq
      exact .inl (h.resting (p := p) ho hp hr hf)
    · exact .inr (own hr)
  timed q hq hs := by
    rw [presses, List.mem_append, List.mem_singleton] at hq
    rcases hq with hq | rfl
    · obtain ⟨p, -, rfl⟩ := List.mem_map.1 hq
      cases hs
    · exact fresh

theorem awaitingOf_awaited {r : Nat} {n : Manipulator} (hm : rules[i]? = some m) (hd : Decisive m)
    (hn : rules[r]? = some n) (id : Nat) (keys : List Key) :
    awaitingOf i (awaited id keys r n) = if r = i then [id] else [] := by
  by_cases hi : r = i
  · subst hi
    rw [hm, Option.some.injEq] at hn
    subst hn
    simp [awaited, awaitingOf, hd.delayed]
  · unfold awaited
    split <;> simp [awaitingOf, hi]

theorem Decided.dispatch {s : State} (h : Decided i s) (ho : Orderly rules s) (hm : rules[i]? = some m)
    (hd : Decisive m) (keys : List Key) (rule : Option Nat) (instant : Nat) :
    Decided i (dispatch rules keys rule instant s) := by
  have hb := decided_bare.2 h
  have hob := orderly_bare.2 ho
  rw [← decided_bare]
  obtain ⟨r, n, rfl, hn⟩ | hr := rule_cases rules rule
  · rw [bare_dispatch_rule rules keys hn]
    have ha := awaitingOf_awaited hm hd hn (s.serial + 1) keys
    refine hb.begin hob _ rfl rfl ?_ ?_ (fun hr => ?_) rfl
    · simp only [settlements_append, settlements_cons, settlements_endings]
      simp [Incident.settles?, Stage.isOutcome, State.running]
    · rw [ha]
      by_cases hi : r = i <;>
        simp [begunBy, Incident.begins?, beginnings_endings, hi]
    · rw [ha, if_pos (Option.some.inj hr)]
      exact List.mem_singleton.2 rfl
  · rw [bare_dispatch_plain rules keys hr]
    have hne : rule ≠ some i := fun he => by
      rw [hr i he] at hm
      cases hm
    refine hb.begin hob [] rfl (List.append_nil _).symm ?_ ?_ (fun hr => by cases hr) rfl
    · simp only [settlements_append, settlements_cons, settlements_endings]
      simp [Incident.settles?, State.running]
    · simp [begunBy, Incident.begins?, beginnings_endings, hne, awaitingOf]

theorem Decided.drop {s : State} (h : Decided i s) (id : Nat) : Decided i (s.drop id) where
  settled := h.settled
  undecided p hp := h.undecided p (List.mem_filter.1 hp).1
  timed p hp := h.timed p (List.mem_filter.1 hp).1

theorem awaitingOf_startCountdown (i id instant : Nat) (n : Manipulator) (s : State) :
    awaitingOf i (startCountdown id n instant s).pending = awaitingOf i s.pending := by
  unfold startCountdown
  cases n.delayed with
  | none => rfl
  | some l =>
    unfold awaitingOf
    rw [List.filter_map, List.map_map]
    have hf : ((fun d : Pending => d.rule == i) ∘ fun d : Pending => if d.press = id ∧ d.deadline = none then
        { d with deadline := some ⟨after instant l.delay.toNat, s.serial + 1⟩ } else d) = (·.rule == i) := by
      funext d
      simp only [Function.comp]
      split <;> rfl
    rw [hf]
    refine List.map_congr_left fun d _ => ?_
    simp only [Function.comp]
    split <;> rfl

theorem Decided.startCountdown {s : State} (h : Decided i s) (id instant : Nat) (n : Manipulator) :
    Decided i (startCountdown id n instant s) := by
  have hj : (Engine.startCountdown id n instant s).journal = s.journal := by
    unfold Engine.startCountdown
    split <;> rfl
  refine ⟨?_, fun p hp => ?_, fun p hp => ?_⟩
  · rw [hj, awaitingOf_startCountdown]
    exact h.settled
  · rw [startCountdown_presses] at hp
    rw [awaitingOf_startCountdown]
    exact h.undecided p hp
  · rw [startCountdown_presses] at hp
    exact h.timed p hp

theorem Decided.tap {s : State} (h : Decided i s) (ho : Orderly rules s) {p : Press} (hp : p ∈ s.presses)
    (hr : p.rule = some i) (hf : p.holdFired = false) :
    Decided i ((((s.drop p.id).note (.released p.id)).note (.emitted p.id i .tap)).forgetPending p.id) where
  settled := by
    obtain ⟨d, hdm, hdr, hdp⟩ := mem_awaitingOf.1 (h.undecided p hp hr hf)
    have ha := ((ho.awaiting_forget (i := i) hdm).append_left (settlements i s.journal)).symm
    rw [← List.append_assoc, if_pos hdr, hdp] at ha
    refine .trans (.of_eq ?_) (ha.trans (h.settled.trans (.of_eq ?_)))
    · simp [State.note, State.forgetPending, State.drop, Incident.settles?, Stage.isOutcome]
    · simp [State.note, State.forgetPending, State.drop, begunBy, Incident.begins?]
  undecided q hq hi hf := by
    obtain ⟨hq, hne⟩ := List.mem_filter.1 hq
    exact mem_awaiting_forget (bne_iff_ne.1 hne) (h.undecided q hq hi hf)
  timed := (h.drop p.id).timed

theorem Decided.endPress {s : State} (h : Decided i s) (ho : Orderly rules s) (hm : rules[i]? = some m)
    (hd : Decisive m) {p : Press} (hp : p ∈ s.presses) {r : Nat} (hr : p.rule = some r) {n : Manipulator}
    (hn : rules[r]? = some n) (instant : Nat) :
    Decided i (Engine.settled p r n instant ((s.drop p.id).note (.released p.id))) := by
  have hb : Decided i ((s.drop p.id).note (.released p.id)) := (h.drop p.id).note rfl rfl
  by_cases hi : r = i
  · subst hi
    rw [hm, Option.some.injEq] at hn
    subst hn
    have hs : (Incident.emitted p.id r .release).settles? r = none := by simp [Incident.settles?, Stage.isOutcome]
    cases ht : isTap m p instant with
    | true =>
      have hf : p.holdFired = false := by
        simp only [isTap, Bool.and_eq_true, Bool.not_eq_true'] at ht
        exact ht.1.2
      simp only [Engine.settled, ht, hd.tap_halts, Bool.and_self, if_true]
      exact h.tap ho hp hr hf
    | false =>
      simp only [Engine.settled, ht, Bool.false_and, Bool.false_eq_true, if_false]
      exact (hb.note rfl hs).startCountdown _ _ _
  · have hs : ∀ stage, (Incident.emitted p.id r stage).settles? i = none := fun stage => by
      simp [Incident.settles?, hi]
    have ht : Decided i (if isTap n p instant then
        ((s.drop p.id).note (.released p.id)).note (.emitted p.id r .tap)
        else (s.drop p.id).note (.released p.id)) := by
      split
      · exact hb.note rfl (hs _)
      · exact hb
    simp only [Engine.settled]
    split
    · refine ht.forgetOther ?_
      have ha := ho.awaiting_other (i := i) hp (by simpa [hr] using hi)
      split <;> exact ha
    · exact (ht.note rfl (hs _)).startCountdown _ _ _

theorem Decided.release {s : State} (h : Decided i s) (ho : Orderly rules s) (hm : rules[i]? = some m)
    (hd : Decisive m) (k : Key) (instant : Nat) : Decided i (release rules k instant s) := by
  cases hk : s.holder? k with
  | none =>
    rw [release_none rules hk]
    exact h.note rfl rfl
  | some p =>
    have hb := decided_bare.2 h
    have hp : p.bare ∈ s.bare.presses := List.mem_map_of_mem (holder_mem hk).1
    rw [← decided_bare, bare_release rules hk]
    split
    · obtain ⟨r, n, hr, hn⟩ | hr := rule_cases rules p.rule
      · rw [bare_endPress_rule rules hr hn]
        exact hb.endPress (orderly_bare.2 ho) hm hd hp hr hn instant
      · rw [bare_endPress_plain rules hr]
        exact (hb.drop p.id).note rfl rfl
    · refine ⟨hb.settled, fun q hq hi hf => ?_, fun q hq hs => ?_⟩
      · obtain ⟨c, hc, rfl⟩ := List.mem_map.1 hq
        by_cases he : c.id = p.id
        · rw [if_pos he] at hi hf ⊢
          exact hb.undecided c hc hi hf
        · rw [if_neg he] at hi hf ⊢
          exact hb.undecided c hc hi hf
      · obtain ⟨c, hc, rfl⟩ := List.mem_map.1 hq
        by_cases he : c.id = p.id
        · rw [if_pos he] at hs ⊢
          exact hb.timed c hc hs
        · rw [if_neg he] at hs ⊢
          exact hb.timed c hc hs

/-! ## Runs -/

theorem settlements_eq_nil {j : List Incident} (h : ∀ l ∈ j, l.settles? i = none) : settlements i j = [] :=
  List.filterMap_eq_nil_iff.2 h

theorem Decided.noteAll {s : State} (h : Decided i s) {more : List Incident}
    (hm : ∀ l ∈ more, l.begins? = none ∧ l.settles? i = none) : Decided i (s.noteAll more) := by
  refine h.congr rfl rfl (beginnings_noteAll (fun l hl => (hm l hl).1) s) ?_
  simp [State.noteAll, settlements_eq_nil fun l hl => (hm l hl).2]

theorem Decided.move {x y : Session} (h : Decided i x.state) (ho : Orderly rules x.state)
    (hm : rules[i]? = some m) (hd : Decisive m) (step : Move rules x y) : Decided i y.state := by
  cases step with
  | fire first => exact h.fire ho hm hd first
  | dispatch simultaneous free oldest once single => exact h.dispatch ho hm hd _ _ _
  | holdBack free oldest found together =>
    refine h.congr rfl rfl ?_ ?_
    · simp [startBuffer, State.note, Incident.begins?]
    · simp [startBuffer, State.note, Incident.settles?]
  | join held oldest narrowed some_left => exact h.congr rfl rfl rfl rfl
  | close held due => exact h.note rfl rfl
  | @finish b r held idle first ready =>
    obtain ⟨more, hs, hl⟩ := handOver_eq rules b r x.state
    have hb : Decided i { x.state with buffer := none } := h.congr rfl rfl rfl rfl
    have ht : Decided i (handOver rules b r x.state) := by
      rw [hs]
      refine hb.noteAll fun l hm => ?_
      obtain ⟨t, rfl⟩ := hl l hm
      exact ⟨rfl, rfl⟩
    simp only [finish_eq]
    exact ht.dispatch (ho.handOver b r) hm hd _ _ _
  | flush held =>
    refine h.congr rfl rfl ?_ ?_
    · simp [State.note, Incident.begins?]
    · simp [State.note, Incident.settles?]

/-- At every moment the presses of a decisive rule that are decided, with those whose delayed action waits,
are the ones that began. -/
theorem Reachable.decided {x : Session} (h : Reachable rules x) (hm : rules[i]? = some m) (hd : Decisive m) :
    Decided i x.state := by
  induction h with
  | start => exact ⟨.refl _, fun _ hp => (List.not_mem_nil hp).elim, fun _ hp => (List.not_mem_nil hp).elim⟩
  | move hx step ih => exact ih.move hx.orderly hm hd step
  | @tick x _ _ instant ih =>
    obtain ⟨more, ht, hl⟩ := x.state.tick_eq instant
    have hb : Decided i { x.state with now := max x.state.now instant } := ih.congr rfl rfl rfl rfl
    rw [ht]
    refine hb.noteAll fun l hm => ?_
    obtain ⟨t, n, rfl⟩ := hl l hm
    exact ⟨rfl, rfl⟩
  | accept _ _ _ ih => exact ih.note rfl rfl
  | refuse _ _ _ ih => exact ih.note rfl rfl
  | release hx _ _ ih => exact ih.release hx.orderly hm hd _ _
  | take _ _ ih => exact ih.congr rfl rfl rfl rfl

/-- A press of a decisive rule is decided at most once. -/
theorem settled_once (inputs : List Input) (placed : rules[i]? = some m) (final : Decisive m) (press : Nat) :
    (settlements i (run rules inputs).journal).count press ≤ 1 := by
  have hr := (reachable_session rules inputs).1
  have hd := (hr.decided placed final).settled.count_eq press
  have hn : (begunBy i (session rules inputs).state.journal).Nodup :=
    hr.numbered.press_nodup.sublist (List.filter_sublist.map _)
  have hc := List.nodup_iff_count_le_one.1 hn press
  rw [List.count_append] at hd
  rw [← session_state]
  omega

end

/-! ## Taps, holds and drops -/

/-- An event list that stands for a tap, at once or delayed. -/
def Stage.isTapping : Stage → Bool
  | tap | invoked | canceled => true
  | press | hold | release => false

/-- The press for which rule `i` sent one of some event lists. -/
def Incident.sends? (i : Nat) (stages : Stage → Bool) : Incident → Option Nat
  | emitted press rule stage => if rule = i ∧ stages stage = true then some press else none
  | _ => none

/-- The press of rule `i` whose delayed action was dropped. -/
def Incident.drops? (i : Nat) : Incident → Option Nat
  | dropped press rule => if rule = i then some press else none
  | _ => none

/-- The presses for which a rule sent its tap, on any of the three ways. -/
def taps (i : Nat) (journal : List Incident) : List Nat := journal.filterMap (Incident.sends? i Stage.isTapping)

def holds (i : Nat) (journal : List Incident) : List Nat := journal.filterMap (Incident.sends? i (· == .hold))

/-- The presses whose delayed action was dropped, because one of their own keys went down again. -/
def drops (i : Nat) (journal : List Incident) : List Nat := journal.filterMap (Incident.drops? i)

/-- A projection that is one of two others splits. -/
theorem filterMap_perm {α β : Type} {f g h : α → Option β}
    (split : ∀ a, f a = g a ∧ h a = none ∨ f a = h a ∧ g a = none) (l : List α) :
    (l.filterMap f).Perm (l.filterMap g ++ l.filterMap h) := by
  induction l with
  | nil => exact .refl _
  | cons a l ih =>
    obtain ⟨hf, hn⟩ | ⟨hf, hn⟩ := split a
    · rw [List.filterMap_cons_none hn, List.filterMap_cons, List.filterMap_cons, hf]
      cases g a with
      | none => exact ih
      | some b => exact ih.cons b
    · rw [List.filterMap_cons_none hn, List.filterMap_cons, List.filterMap_cons, hf]
      cases h a with
      | none => exact ih
      | some b => exact (ih.cons b).trans List.perm_middle.symm

/-- A decided press was tapped, held or dropped. -/
theorem settlements_perm (i : Nat) (journal : List Incident) :
    (settlements i journal).Perm (taps i journal ++ (holds i journal ++ drops i journal)) := by
  have hs := filterMap_perm (f := Incident.settles? i) (g := Incident.sends? i Stage.isOutcome)
    (h := Incident.drops? i) (fun l => by cases l <;> simp [Incident.settles?, Incident.sends?, Incident.drops?])
    journal
  have ho := filterMap_perm (f := Incident.sends? i Stage.isOutcome) (g := Incident.sends? i Stage.isTapping)
    (h := Incident.sends? i (· == .hold)) (fun l => by
      cases l with
      | emitted press rule stage =>
        cases stage <;> simp [Incident.sends?, Stage.isOutcome, Stage.isTapping]
      | _ => exact .inl ⟨rfl, rfl⟩) journal
  refine hs.trans ((ho.append_right _).trans (.of_eq ?_))
  exact List.append_assoc _ _ _

/-! ## What drops -/

@[simp] theorem drops_append (i : Nat) (j more : List Incident) : drops i (j ++ more) = drops i j ++ drops i more :=
  List.filterMap_append

theorem drops_eq_nil {i : Nat} {j : List Incident} (h : ∀ l ∈ j, l.drops? i = none) : drops i j = [] :=
  List.filterMap_eq_nil_iff.2 h

theorem drops_of_sending (i : Nat) (l : Incident) (hl : l.isSending = true) : l.drops? i = none := by
  cases l <;> first | rfl | cases hl

theorem drops_note {i : Nat} {l : Incident} (hl : l.drops? i = none) (s : State) :
    drops i (s.note l).journal = drops i s.journal := by
  simp [State.note, drops_eq_nil, hl]

section
variable {rules : List Manipulator}

theorem drops_endings (i : Nat) (keys : List Key) (ps : List Pending) :
    drops i (ps.map (ending keys)) = awaitingOf i (ps.filter fun d => d.owners.any (· ∈ keys)) := by
  induction ps with
  | nil => rfl
  | cons d ps ih =>
    have hc : drops i ((d :: ps).map (ending keys)) =
        ((ending keys d).drops? i).toList ++ drops i (ps.map (ending keys)) := by
      cases h : (ending keys d).drops? i <;> simp [drops, h]
    rw [hc, ih]
    by_cases ho : d.owners.any (· ∈ keys) = true
    · by_cases hr : d.rule = i <;> simp [ending, ho, Incident.drops?, awaitingOf, hr]
    · simp [ending, ho, Incident.drops?]

theorem drops_quiet {i : Nat} {s t : State} {more : List Incident} (h : t.bare.journal = s.bare.journal ++ more)
    (quiet : ∀ l ∈ more, l.drops? i = none) : drops i t.journal = drops i s.journal := by
  have hl := filterMap_lines (drops_of_sending i) h
  rw [List.filterMap_eq_nil_iff.2 quiet, List.append_nil] at hl
  exact hl

theorem fire_drops (i : Nat) (s : State) (d : Deadline) (timer : Timer) :
    drops i (fire rules s d timer).journal = drops i s.journal := by
  refine drops_quiet (fire_journal rules s d timer) fun l hl => ?_
  obtain rfl | ⟨p, -, rfl | rfl⟩ | ⟨p, r, -, -, rfl⟩ := fireLines_mem hl <;> rfl

theorem release_drops (i : Nat) (k : Key) (instant : Nat) (s : State) :
    drops i (release rules k instant s).journal = drops i s.journal := by
  refine drops_quiet (release_journal rules k instant s) fun l hl => ?_
  obtain rfl | ⟨p, -, rfl | ⟨r, -, ⟨-, rfl⟩ | rfl⟩⟩ := releaseLines_mem rules hl <;> rfl

/-- A press drops the running countdowns that share a key with it. -/
theorem dispatch_drops (i : Nat) (keys : List Key) (rule : Option Nat) (instant : Nat) (s : State) :
    drops i (dispatch rules keys rule instant s).journal =
      drops i s.journal ++ awaitingOf i (s.running.filter fun d => d.owners.any (· ∈ keys)) := by
  refine (filterMap_lines (drops_of_sending i) (dispatch_journal rules keys rule instant s)).trans (congrArg _ ?_)
  have begins : drops i (beginLines rules (s.serial + 1) rule) = [] := by
    refine drops_eq_nil fun l hl => ?_
    obtain ⟨r, rfl⟩ := beginLines_mem rules hl
    rfl
  show drops i (dispatchLines rules keys rule instant s).tail = _
  rw [dispatchLines, List.tail_cons, drops_append, drops_endings, begins, List.append_nil]

end

end KeyRules.Engine
