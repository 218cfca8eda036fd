import KeyRules.Proofs.Engine.Bare
import Mathlib.Data.List.Forall2

/-!
# Akin states

Two engines, each with its own rule list, are in akin states if all they do from then on without searching a rule is
the same: what was sent, what waits to be sent, the flags and the clock agree, and presses and delayed actions agree one
by one, up to the order of their keys and up to where their manipulators are listed. The journal and the buffer are left
out. Timers, presses that begin and keys that go up keep states akin.
-/

namespace KeyRules.Engine

section
variable (rules others : List Manipulator)

/-- Both have the same manipulator, or none. -/
def SameRule (i j : Option Nat) : Prop := (i.bind fun i => rules[i]?) = j.bind fun j => others[j]?

structure Press.Akin (p q : Press) : Prop where
  id_eq : p.id = q.id
  held : p.held.Perm q.held
  rule : SameRule rules others p.rule q.rule
  since : p.since = q.since
  isAlone : p.isAlone = q.isAlone
  holdFired : p.holdFired = q.holdFired
  holdTimer : p.holdTimer = q.holdTimer
  outputs : p.outputs = q.outputs

structure Pending.Akin (c d : Pending) : Prop where
  press : c.press = d.press
  owners : c.owners.Perm d.owners
  rule : rules[c.rule]? = others[d.rule]?
  deadline : c.deadline = d.deadline

structure Akin (s t : State) : Prop where
  flags : s.flags = t.flags
  presses : List.Forall₂ (Press.Akin rules others) s.presses t.presses
  pending : List.Forall₂ (Pending.Akin rules others) s.pending t.pending
  armed : s.armed = t.armed
  output : s.output = t.output
  now : s.now = t.now
  serial : s.serial = t.serial

inductive Timer.Akin : Timer → Timer → Prop where
  | countdown {c d : Pending} (h : Pending.Akin rules others c d) : Akin (.countdown c) (.countdown d)
  | hold {p q : Press} (h : Press.Akin rules others p q) : Akin (.hold p) (.hold q)

end

section
variable {rules others : List Manipulator} {s t : State}

theorem SameRule.cases {r r' : Option Nat} (h : SameRule rules others r r') :
    (∃ i j m, r = some i ∧ r' = some j ∧ rules[i]? = some m ∧ others[j]? = some m) ∨
      (∀ i, r = some i → rules[i]? = none) ∧ ∀ j, r' = some j → others[j]? = none := by
  unfold SameRule at h
  obtain ⟨i, m, rfl, hm⟩ | hr := rule_cases rules r
  · rw [Option.bind_some, hm] at h
    obtain ⟨j, hj, hm'⟩ := Option.bind_eq_some_iff.1 h.symm
    exact .inl ⟨i, j, m, rfl, hj, hm, hm'⟩
  · refine .inr ⟨hr, fun j hj => ?_⟩
    have none_left : (r.bind fun i => rules[i]?) = none := Option.bind_eq_none_iff.2 hr
    rw [none_left, hj, Option.bind_some] at h
    exact h.symm

theorem Press.Akin.refl (p : Press) : Press.Akin rules rules p p := ⟨rfl, .refl _, rfl, rfl, rfl, rfl, rfl, rfl⟩

theorem Pending.Akin.refl (d : Pending) : Pending.Akin rules rules d d := ⟨rfl, .refl _, rfl, rfl⟩

theorem Akin.refl (s : State) : Akin rules rules s s :=
  ⟨rfl, List.forall₂_same.2 fun p _ => .refl p, List.forall₂_same.2 fun d _ => .refl d, rfl, rfl, rfl, rfl⟩

/-! ## Sending -/

theorem Akin.note (h : Akin rules others s t) (l l' : Incident) : Akin rules others (s.note l) (t.note l') :=
  ⟨h.flags, h.presses, h.pending, h.armed, h.output, h.now, h.serial⟩

theorem Akin.holding (h : Akin rules others s t) (b c : Option Buffer) :
    Akin rules others { s with buffer := b } { t with buffer := c } :=
  ⟨h.flags, h.presses, h.pending, h.armed, h.output, h.now, h.serial⟩

/-- A buffer takes a number too. -/
theorem Akin.opening (h : Akin rules others s t) (b c : Option Buffer) (n : Nat) :
    Akin rules others { s with serial := n, buffer := b } { t with serial := n, buffer := c } :=
  ⟨h.flags, h.presses, h.pending, h.armed, h.output, h.now, rfl⟩

theorem Akin.foldl {α : Type} {f : State → α → State} (hf : ∀ {s t}, Akin rules others s t → ∀ a,
    Akin rules others (f s a) (f t a)) (h : Akin rules others s t) (l : List α) :
    Akin rules others (l.foldl f s) (l.foldl f t) := by
  induction l generalizing s t with
  | nil => exact h
  | cons a l ih => exact ih (hf h a)

theorem Akin.send (h : Akin rules others s t) (o : Output) : Akin rules others (s.send o) (t.send o) :=
  ⟨h.flags, h.presses, h.pending, h.armed, congrArg (· ++ [o]) h.output, h.now, h.serial⟩

theorem Akin.sendAll (h : Akin rules others s t) (os : List Output) : Akin rules others (s.sendAll os) (t.sendAll os) :=
  h.foldl Akin.send os

theorem Akin.sendUps (h : Akin rules others s t) (ks : List Key) : Akin rules others (s.sendUps ks) (t.sendUps ks) :=
  h.sendAll _

theorem Akin.sendWaiting (h : Akin rules others s t) (a : Armed) :
    Akin rules others (s.sendWaiting a) (t.sendWaiting a) := (h.note _ _).sendAll _

theorem Akin.sendArmed (h : Akin rules others s t) : Akin rules others s.sendArmed t.sendArmed := by
  unfold State.sendArmed
  rw [h.armed]
  refine Akin.foldl Akin.sendWaiting ?_ _
  exact ⟨h.flags, h.presses, h.pending, rfl, h.output, h.now, h.serial⟩

theorem Akin.sendDown (h : Akin rules others s t) (k : Key) : Akin rules others (s.sendDown k) (t.sendDown k) := by
  unfold State.sendDown
  split
  · exact h.send _
  · exact h.sendArmed.send _

theorem Akin.sendDowns (h : Akin rules others s t) (ks : List Key) :
    Akin rules others (s.sendDowns ks) (t.sendDowns ks) := h.foldl Akin.sendDown ks

theorem Akin.updatePress (h : Akin rules others s t) {id id' : Nat} (same : id = id') {f g : Press → Press}
    (hf : ∀ {p q}, Press.Akin rules others p q → p.id = id → Press.Akin rules others (f p) (g q)) :
    Akin rules others (s.updatePress id f) (t.updatePress id' g) := by
  subst same
  refine ⟨h.flags, ?_, h.pending, h.armed, h.output, h.now, h.serial⟩
  refine List.rel_map (fun p q hpq => ?_) h.presses
  by_cases hid : p.id = id
  · rw [if_pos hid, if_pos (hpq.id_eq ▸ hid)]
    exact hf hpq hid
  · rw [if_neg hid, if_neg (hpq.id_eq ▸ hid)]
    exact hpq

theorem Akin.forgetPending (h : Akin rules others s t) {id id' : Nat} (same : id = id') :
    Akin rules others (s.forgetPending id) (t.forgetPending id') := by
  subst same
  refine ⟨h.flags, h.presses, ?_, h.armed, h.output, h.now, h.serial⟩
  exact List.rel_filter (fun c d hcd => by simp only [hcd.press]) h.pending

theorem Akin.holdDown (h : Akin rules others s t) {id id' : Nat} (same : id = id') (ks : List Key) :
    Akin rules others (s.holdDown id ks) (t.holdDown id' ks) :=
  (h.sendDowns ks).updatePress same fun hpq _ => { hpq with outputs := congrArg (· ++ ks) hpq.outputs }

theorem Akin.setFlag (h : Akin rules others s t) (f : Flag) (value : Bool) :
    Akin rules others (s.setFlag f value) (t.setFlag f value) := by
  unfold State.setFlag
  rw [h.flags]
  split <;> exact ⟨rfl, h.presses, h.pending, h.armed, h.output, h.now, h.serial⟩

theorem Akin.arm (h : Akin rules others s t) (id : Nat) (ks : List Key) :
    Akin rules others (s.arm id ks) (t.arm id ks) :=
  ⟨h.flags, h.presses, h.pending, congrArg (fun as : List Armed => as ++ [{ press := id, keys := ks }]) h.armed,
    h.output, h.now, h.serial⟩

theorem Akin.sendEvents (h : Akin rules others s t) (holder : Option Nat) (es : List Event) :
    Akin rules others (s.sendEvents holder es) (t.sendEvents holder es) := by
  refine h.foldl (fun h e => ?_) es
  cases e with
  | setFlag f value => exact h.setFlag f value
  | paste text => exact h.send _
  | stroke stroke =>
    cases holder with
    | none => exact (h.sendDowns _).sendUps _
    | some id =>
      simp only [State.sendEvent]
      split
      · exact h.arm id _
      · exact h.holdDown rfl _

theorem Akin.emit (h : Akin rules others s t) {press press' : Nat} (rule rule' : Nat) (stage : Stage)
    (holder : Option Nat) (es : List Event) :
    Akin rules others (s.emit press rule stage holder es) (t.emit press' rule' stage holder es) :=
  (h.note _ _).sendEvents holder es

theorem Akin.disarm (h : Akin rules others s t) (a : Armed) : Akin rules others (s.disarm a) (t.disarm a) := by
  unfold State.disarm
  cases a.isSent with
  | true => exact (h.note _ _).sendUps _
  | false => exact h.note _ _

theorem Akin.releaseOutputs (h : Akin rules others s t) {p q : Press} (hpq : Press.Akin rules others p q) :
    Akin rules others (s.releaseOutputs p) (t.releaseOutputs q) := by
  have cleared := (h.sendUps p.outputs).updatePress hpq.id_eq (f := fun p => { p with outputs := [] })
    (g := fun p => { p with outputs := [] }) fun hpq _ => { hpq with outputs := rfl }
  unfold State.releaseOutputs
  rw [← hpq.outputs, ← hpq.id_eq]
  rw [← hpq.id_eq] at cleared
  simp only
  rw [cleared.armed]
  refine Akin.foldl Akin.disarm ?_ _
  exact ⟨cleared.flags, cleared.presses, cleared.pending, rfl, cleared.output, cleared.now, cleared.serial⟩

/-! ## Timers -/

theorem eventsOf_same {i j : Nat} (h : rules[i]? = others[j]?) (f : Manipulator → List Event) :
    eventsOf rules i f = eventsOf others j f := by
  unfold eventsOf
  rw [h]

/-- Timers of one deadline, for akin presses. -/
def TimersAkin (rules others : List Manipulator) (a b : Deadline × Timer) : Prop :=
  a.1 = b.1 ∧ Timer.Akin rules others a.2 b.2

theorem Akin.timers (h : Akin rules others s t) : List.Forall₂ (TimersAkin rules others) s.timers t.timers := by
  refine List.rel_append (List.rel_filterMap (fun c d hcd => ?_) h.pending)
    (List.rel_filterMap (fun p q hpq => ?_) h.presses)
  · rw [← hcd.deadline]
    cases c.deadline with
    | none => exact .none
    | some e => exact .some ⟨rfl, .countdown hcd⟩
  · rw [← hpq.holdTimer]
    cases p.holdTimer with
    | none => exact .none
    | some e => exact .some ⟨rfl, .hold hpq⟩

theorem earliest_akin {ts us : List (Deadline × Timer)} (h : List.Forall₂ (TimersAkin rules others) ts us) :
    Option.Rel (TimersAkin rules others) (earliest ts) (earliest us) := by
  induction h with
  | nil => exact .none
  | cons first _ ih =>
    unfold earliest
    revert ih
    generalize earliest _ = a
    generalize earliest _ = b
    intro ih
    cases ih with
    | none => exact .some first
    | some later =>
      simp only
      rw [← first.1, ← later.1]
      split
      · exact .some later
      · exact .some first

theorem Akin.fireCountdown (h : Akin rules others s t) {c d : Pending} (hcd : Pending.Akin rules others c d)
    (instant : Nat) : Akin rules others (fireCountdown rules s c instant) (fireCountdown others t d instant) := by
  unfold Engine.fireCountdown
  rw [eventsOf_same hcd.rule]
  exact ((h.forgetPending hcd.press).note _ _).emit _ _ _ _ _

theorem Akin.fired (h : Akin rules others s t) {p q : Press} (hpq : Press.Akin rules others p q) :
    Akin rules others (s.updatePress p.id Press.fired) (t.updatePress q.id Press.fired) :=
  h.updatePress hpq.id_eq fun hpq _ => { hpq with holdTimer := rfl, holdFired := rfl }

variable (rules) in
theorem fireHold_plain {p : Press} (hr : ∀ i, p.rule = some i → rules[i]? = none) (s : State) :
    ∃ lines, fireHold rules s p = (s.updatePress p.id Press.fired).noteAll lines := by
  cases hp : p.rule with
  | none =>
    refine ⟨[], ?_⟩
    simp only [fireHold, hp, State.noteAll, List.append_nil]
    rfl
  | some i =>
    have silent : eventsOf rules i (·.onHold) = [] := by simp [eventsOf, hr i hp]
    refine ⟨[.emitted p.id i .hold], ?_⟩
    simp only [fireHold, hp, silent]
    rfl

variable (rules) in
theorem fireHold_rule {p : Press} {i : Nat} {m : Manipulator} (hp : p.rule = some i) (hm : rules[i]? = some m)
    (s : State) : fireHold rules s p =
      if halts m.onHold then
        ((s.updatePress p.id Press.fired).emit p.id i .hold (some p.id) m.onHold).forgetPending p.id
      else (s.updatePress p.id Press.fired).emit p.id i .hold (some p.id) m.onHold := by
  have events : eventsOf rules i (·.onHold) = m.onHold := by simp [eventsOf, hm]
  simp only [fireHold, hp, events]
  rfl

theorem Akin.noteAll (h : Akin rules others s t) (ls ls' : List Incident) :
    Akin rules others (s.noteAll ls) (t.noteAll ls') :=
  ⟨h.flags, h.presses, h.pending, h.armed, h.output, h.now, h.serial⟩

theorem Akin.fireHold (h : Akin rules others s t) {p q : Press} (hpq : Press.Akin rules others p q) :
    Akin rules others (fireHold rules s p) (fireHold others t q) := by
  obtain ⟨i, j, m, hp, hq, hm, hm'⟩ | ⟨hp, hq⟩ := hpq.rule.cases
  · rw [fireHold_rule rules hp hm, fireHold_rule others hq hm', ← hpq.id_eq]
    have marked := h.fired hpq
    rw [← hpq.id_eq] at marked
    have sent : Akin rules others ((s.updatePress p.id Press.fired).emit p.id i .hold (some p.id) m.onHold)
      ((t.updatePress p.id Press.fired).emit p.id j .hold (some p.id) m.onHold) := marked.emit i j .hold _ _
    split
    · exact sent.forgetPending rfl
    · exact sent
  · obtain ⟨ls, hs⟩ := fireHold_plain rules hp s
    obtain ⟨ls', ht⟩ := fireHold_plain others hq t
    rw [hs, ht]
    exact (h.fired hpq).noteAll _ _

theorem Akin.fire (h : Akin rules others s t) (d : Deadline) {a b : Timer} (hab : Timer.Akin rules others a b) :
    Akin rules others (fire rules s d a) (fire others t d b) := by
  cases hab with
  | countdown hcd => exact (h.note _ _).fireCountdown hcd _
  | hold hpq => exact (h.note _ _).fireHold hpq

theorem Akin.fireWhile (isDue : Deadline → Bool) (n : Nat) (h : Akin rules others s t) :
    Akin rules others (fireWhile rules isDue n s) (fireWhile others isDue n t) := by
  induction n generalizing s t with
  | zero => exact h
  | succ n ih =>
    have first := earliest_akin h.timers
    unfold Engine.fireWhile
    revert first
    generalize earliest s.timers = a
    generalize earliest t.timers = b
    intro first
    cases first with
    | none => exact h
    | some hab =>
      rename_i a b
      obtain ⟨d, a⟩ := a
      obtain ⟨e, b⟩ := b
      obtain ⟨rfl, hab⟩ : d = e ∧ Timer.Akin rules others a b := hab
      simp only
      split
      · exact ih (h.fire d hab)
      · exact h

theorem Akin.settle (isDue : Deadline → Bool) (h : Akin rules others s t) :
    Akin rules others (settle rules isDue s) (settle others isDue t) := by
  unfold Engine.settle
  rw [h.timers.length_eq]
  exact h.fireWhile isDue _

theorem Akin.settleBy (instant : Nat) (h : Akin rules others s t) :
    Akin rules others (settleBy rules instant s) (settleBy others instant t) := h.settle _

theorem Akin.tick (instant : Nat) (h : Akin rules others s t) :
    Akin rules others (s.tick instant) (t.tick instant) := by
  unfold State.tick
  rw [h.now]
  split <;> exact ⟨h.flags, h.presses, h.pending, h.armed, h.output, by simp [State.note, h.now], h.serial⟩

/-! ## Presses that begin -/

theorem any_mem_perm {ks ks' owners owners' : List Key} (keys : ks.Perm ks') (same : owners.Perm owners') :
    owners.any (· ∈ ks) = owners'.any (· ∈ ks') := by
  rw [same.any_eq]
  exact List.any_congr rfl fun k => decide_eq_decide.2 keys.mem_iff

theorem Akin.endCountdown {ks ks' : List Key} (keys : ks.Perm ks') (h : Akin rules others s t) {c d : Pending}
    (hcd : Pending.Akin rules others c d) :
    Akin rules others (endCountdown rules ks s c) (endCountdown others ks' t d) := by
  unfold Engine.endCountdown
  rw [any_mem_perm keys hcd.owners, eventsOf_same hcd.rule]
  split
  · exact h.note _ _
  · exact h.emit _ _ _ _ _

theorem Press.Akin.disturb {p q : Press} (h : Press.Akin rules others p q) :
    Press.Akin rules others p.disturb q.disturb := { h with isAlone := rfl, holdTimer := rfl }

theorem Akin.interrupt {ks ks' : List Key} (keys : ks.Perm ks') (h : Akin rules others s t) :
    Akin rules others (interrupt rules ks s) (interrupt others ks' t) := by
  have calm : Akin rules others
      { s with presses := s.presses.map Press.disturb, pending := s.pending.filter (·.deadline.isNone) }
      { t with presses := t.presses.map Press.disturb, pending := t.pending.filter (·.deadline.isNone) } := by
    refine ⟨h.flags, ?_, ?_, h.armed, h.output, h.now, h.serial⟩
    · exact List.rel_map (fun p q hpq => hpq.disturb) h.presses
    · exact List.rel_filter (fun c d hcd => by simp only [hcd.deadline]) h.pending
  have running : List.Forall₂ (Pending.Akin rules others) (s.pending.filter (·.deadline.isSome))
      (t.pending.filter (·.deadline.isSome)) :=
    List.rel_filter (fun c d hcd => by simp only [hcd.deadline]) h.pending
  exact List.rel_foldl (fun _ _ hst _ _ hcd => hst.endCountdown keys hcd) calm running

theorem Akin.disturbed {ks ks' : List Key} (keys : ks.Perm ks') (r r' : Option Nat) (instant : Nat)
    (h : Akin rules others s t) :
    Akin rules others (disturbed rules ks r instant s) (disturbed others ks' r' instant t) := by
  have ended := (h.note (.dispatched (s.serial + 1) ks r instant s.flags)
    (.dispatched (t.serial + 1) ks' r' instant t.flags)).interrupt keys
  exact ⟨ended.flags, ended.presses, ended.pending, ended.armed, ended.output, ended.now, congrArg (· + 1) h.serial⟩

theorem Akin.add (h : Akin rules others s t) {p q : Press} (hpq : Press.Akin rules others p q) {cs ds : List Pending}
    (more : List.Forall₂ (Pending.Akin rules others) cs ds) (n : Nat) :
    Akin rules others { s with presses := s.presses ++ [p], pending := s.pending ++ cs, serial := n }
      { t with presses := t.presses ++ [q], pending := t.pending ++ ds, serial := n } :=
  ⟨h.flags, List.rel_append h.presses (.cons hpq .nil), List.rel_append h.pending more, h.armed, h.output, h.now, rfl⟩

theorem awaited_akin {ks ks' : List Key} (keys : ks.Perm ks') {i j : Nat} (same : rules[i]? = others[j]?) (id : Nat)
    (m : Manipulator) : List.Forall₂ (Pending.Akin rules others) (awaited id ks i m) (awaited id ks' j m) := by
  unfold awaited
  split
  · exact .cons ⟨rfl, keys, same, rfl⟩ .nil
  · exact .nil

/-- A press begins with the same manipulator, its keys in any order. -/
theorem Akin.dispatchRule {ks ks' : List Key} (keys : ks.Perm ks') {i j : Nat} {m : Manipulator}
    (hm : rules[i]? = some m) (hm' : others[j]? = some m) (instant : Nat) (h : Akin rules others s t) :
    Akin rules others (dispatch rules ks (some i) instant s) (dispatch others ks' (some j) instant t) := by
  have disturbs := h.disturbed keys (some i) (some j) instant
  have hs : (Engine.disturbed rules ks (some i) instant s).serial = s.serial + 1 := rfl
  have ht : (Engine.disturbed others ks' (some j) instant t).serial = s.serial + 1 := congrArg (· + 1) h.serial.symm
  have same : rules[i]? = others[j]? := hm.trans hm'.symm
  have begins : Press.Akin rules others (begun (s.serial + 1) ks i instant m) (begun (s.serial + 1) ks' j instant m) :=
    ⟨rfl, keys, same, rfl, rfl, rfl, rfl, rfl⟩
  rw [dispatch_rule rules ks hm, dispatch_rule others ks' hm', ← h.serial, beginRule_eq hs, beginRule_eq ht]
  exact (disturbs.add begins (awaited_akin keys same _ m) _).emit _ _ _ _ _

theorem Akin.dispatchPlain (ks : List Key) {r r' : Option Nat} (hr : ∀ i, r = some i → rules[i]? = none)
    (hr' : ∀ j, r' = some j → others[j]? = none) (instant : Nat) (h : Akin rules others s t) :
    Akin rules others (dispatch rules ks r instant s) (dispatch others ks r' instant t) := by
  have disturbs := h.disturbed (.refl ks) r r' instant
  have begins : Press.Akin rules others { id := s.serial + 1, held := ks, rule := none, since := instant }
      { id := s.serial + 1, held := ks, rule := none, since := instant } :=
    ⟨rfl, .refl ks, rfl, rfl, rfl, rfl, rfl, rfl⟩
  rw [dispatch_plain rules ks hr, dispatch_plain others ks hr', ← h.serial]
  refine Akin.holdDown ?_ rfl ks
  exact ⟨disturbs.flags, List.rel_append disturbs.presses (.cons begins .nil), disturbs.pending, disturbs.armed,
    disturbs.output, disturbs.now, disturbs.serial⟩

theorem Akin.dispatch (ks : List Key) {r r' : Option Nat} (same : SameRule rules others r r') (instant : Nat)
    (h : Akin rules others s t) :
    Akin rules others (dispatch rules ks r instant s) (dispatch others ks r' instant t) := by
  obtain ⟨i, j, m, rfl, rfl, hm, hm'⟩ | ⟨hr, hr'⟩ := same.cases
  · exact h.dispatchRule (.refl ks) hm hm' instant
  · exact h.dispatchPlain ks hr hr' instant

/-! ## Keys that go up -/

theorem isTap_akin {p q : Press} (h : Press.Akin rules others p q) (m : Manipulator) (instant : Nat) :
    isTap m p instant = isTap m q instant := by
  unfold isTap
  rw [h.isAlone, h.holdFired, h.since]

theorem Akin.startCountdown (h : Akin rules others s t) (id : Nat) (m : Manipulator) (instant : Nat) :
    Akin rules others (startCountdown id m instant s) (startCountdown id m instant t) := by
  unfold Engine.startCountdown
  cases m.delayed with
  | none => exact h
  | some l =>
    refine ⟨h.flags, h.presses, List.rel_map (fun c d hcd => ?_) h.pending, h.armed, h.output, h.now,
      congrArg (· + 1) h.serial⟩
    rw [← h.serial, ← hcd.press, ← hcd.deadline]
    split
    · exact ⟨rfl, hcd.owners, hcd.rule, rfl⟩
    · exact hcd

theorem Akin.endRule (h : Akin rules others s t) {p q : Press} (hpq : Press.Akin rules others p q) (i j : Nat)
    (m : Manipulator) (instant : Nat) : Akin rules others (endRule p i m instant s) (endRule q j m instant t) := by
  have tapped : Akin rules others (if isTap m p instant then s.emit p.id i .tap none m.onTap else s)
      (if isTap m p instant then t.emit q.id j .tap none m.onTap else t) := by
    split
    · exact h.emit _ _ _ _ _
    · exact h
  unfold Engine.endRule
  rw [← isTap_akin hpq]
  simp only
  split
  · exact tapped.forgetPending hpq.id_eq
  · rw [← hpq.id_eq] at tapped ⊢
    exact (tapped.emit _ _ _ _ _).startCountdown _ _ _

theorem Akin.drop (h : Akin rules others s t) (id : Nat) : Akin rules others (s.drop id) (t.drop id) :=
  ⟨h.flags, List.rel_filter (fun p q hpq => by simp only [hpq.id_eq]) h.presses, h.pending, h.armed, h.output, h.now,
    h.serial⟩

variable (rules) in
theorem endPress_rule {p : Press} {i : Nat} {m : Manipulator} (hp : p.rule = some i) (hm : rules[i]? = some m)
    (instant : Nat) (s : State) :
    endPress rules p instant s = endRule p i m instant ((s.drop p.id).note (.released p.id)) := by
  simp only [endPress, hp, hm]
  rfl

variable (rules) in
theorem endPress_plain {p : Press} (hr : ∀ i, p.rule = some i → rules[i]? = none) (instant : Nat) (s : State) :
    endPress rules p instant s = (s.drop p.id).note (.released p.id) := by
  unfold endPress
  cases hp : p.rule with
  | none => rfl
  | some i =>
    simp only [hr i hp]
    rfl

theorem Akin.endPress (h : Akin rules others s t) {p q : Press} (hpq : Press.Akin rules others p q) (instant : Nat) :
    Akin rules others (endPress rules p instant s) (endPress others q instant t) := by
  obtain ⟨i, j, m, hp, hq, hm, hm'⟩ | ⟨hp, hq⟩ := hpq.rule.cases
  · rw [endPress_rule rules hp hm, endPress_rule others hq hm', ← hpq.id_eq]
    exact Akin.endRule ((h.drop p.id).note _ _) hpq i j m instant
  · rw [endPress_plain rules hp, endPress_plain others hq, ← hpq.id_eq]
    exact (h.drop p.id).note _ _

theorem find_akin {R : Press → Press → Prop} {ps qs : List Press} (h : List.Forall₂ R ps qs) {f g : Press → Bool}
    (agree : ∀ p q, R p q → f p = g q) : Option.Rel R (ps.find? f) (qs.find? g) := by
  induction h with
  | nil => exact .none
  | cons hpq _ ih =>
    rw [List.find?_cons, List.find?_cons, ← agree _ _ hpq]
    split
    · exact .some hpq
    · exact ih

theorem Akin.holder (h : Akin rules others s t) (k : Key) :
    Option.Rel (Press.Akin rules others) (s.holder? k) (t.holder? k) :=
  find_akin (List.rel_reverse h.presses) fun _ _ hpq => hpq.held.contains_eq

theorem Akin.release (h : Akin rules others s t) (k : Key) (instant : Nat) :
    Akin rules others (release rules k instant s) (release others k instant t) := by
  have holders := h.holder k
  unfold Engine.release
  revert holders
  generalize s.holder? k = a
  generalize t.holder? k = b
  intro holders
  cases holders with
  | none => exact h.note _ _
  | some hpq =>
    rename_i p q
    have left : (p.held.filter (· != k)).Perm (q.held.filter (· != k)) := hpq.held.filter _
    have kept := h.updatePress hpq.id_eq (f := fun r => { r with held := p.held.filter (· != k) })
      (g := fun r => { r with held := q.held.filter (· != k) }) fun hr _ => { hr with held := left }
    have gone := kept.releaseOutputs hpq
    have last : (p.held.filter (· != k)).isEmpty = (q.held.filter (· != k)).isEmpty := by
      rw [Bool.eq_iff_iff, List.isEmpty_iff, List.isEmpty_iff, ← List.length_eq_zero_iff, ← List.length_eq_zero_iff,
        left.length_eq]
    simp only
    rw [last]
    split
    · exact gone.endPress hpq instant
    · exact gone

end

end KeyRules.Engine
