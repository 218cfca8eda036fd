import KeyRules.Proofs.Engine.Presses

/-!
# No stuck keys

A ledger tells which keys a list of outputs leaves down. Between two operations these are exactly the keys that
the presses in flight hold and those of the lazy strokes that were sent. While an operation sends events it can
also owe some: keys that are down already but not yet written to a press, or taken from it and not yet up.
-/

namespace KeyRules.Engine

def downs (k : Key) (os : List Output) : Nat := os.count (.down k)

def ups (k : Key) (os : List Output) : Nat := os.count (.up k)

/-- No key goes up more often than it went down, and exactly `held` is left down. -/
structure Ledger (os : List Output) (held : List Key) : Prop where
  balance : ∀ k, downs k os = ups k os + held.count k
  prefixes : ∀ k before, before <+: os → ups k before ≤ downs k before

theorem ledger_nil : Ledger [] [] where
  balance k := rfl
  prefixes k before h := by
    rw [List.prefix_nil.1 h]
    exact Nat.le_refl _

theorem Ledger.perm {os : List Output} {held left : List Key} (h : Ledger os held) (hp : left.Perm held) :
    Ledger os left where
  balance k := by
    rw [hp.count_eq]
    exact h.balance k
  prefixes := h.prefixes

theorem Ledger.concat {os : List Output} {held left : List Key} (h : Ledger os held) {o : Output}
    (sum : ∀ k, downs k (os ++ [o]) = ups k (os ++ [o]) + left.count k) : Ledger (os ++ [o]) left where
  balance := sum
  prefixes k before hb := by
    rcases List.prefix_concat_iff.1 hb with rfl | hb
    · rw [sum k]
      exact Nat.le_add_right _ _
    · exact h.prefixes k before hb

theorem Ledger.down {os : List Output} {held : List Key} (h : Ledger os held) (k : Key) :
    Ledger (os ++ [.down k]) (k :: held) := by
  refine h.concat fun j => ?_
  have hj := h.balance j
  simp only [downs, ups, List.count_append, List.count_cons] at hj ⊢
  by_cases hk : k = j
  · simp [hk]
    omega
  · simp [hk]
    omega

theorem Ledger.up {os : List Output} {held : List Key} {k : Key} (h : Ledger os (k :: held)) :
    Ledger (os ++ [.up k]) held := by
  refine h.concat fun j => ?_
  have hj := h.balance j
  simp only [downs, ups, List.count_append, List.count_cons] at hj ⊢
  by_cases hk : k = j
  · simp [hk] at hj ⊢
    omega
  · simp [hk] at hj ⊢
    omega

theorem Ledger.paste {os : List Output} {held : List Key} (h : Ledger os held) (text : String) :
    Ledger (os ++ [.paste text]) held := by
  refine h.concat fun j => ?_
  have hj := h.balance j
  simp only [downs, ups, List.count_append, List.count_singleton] at hj ⊢
  simpa using hj

theorem Ledger.downs {os : List Output} {held : List Key} (ks : List Key) (h : Ledger os held) :
    Ledger (os ++ ks.map .down) (ks ++ held) := by
  induction ks generalizing os held with
  | nil => simpa using h
  | cons k ks ih =>
    have hs := ih (h.down k)
    rw [List.append_assoc] at hs
    exact hs.perm List.perm_middle.symm

theorem Ledger.ups {os : List Output} {held : List Key} {ks : List Key} (h : Ledger os (ks ++ held)) :
    Ledger (os ++ ks.map .up) held := by
  induction ks generalizing os with
  | nil => simpa using h
  | cons k ks ih =>
    have hs := ih h.up
    rwa [List.append_assoc] at hs

/-! ## What sending writes -/

namespace State

@[simp] theorem sendAll_output (s : State) (os : List Output) : (s.sendAll os).output = s.output ++ os := by
  unfold sendAll
  induction os generalizing s with
  | nil => simp
  | cons o os ih => simp [ih, send, note]

@[simp] theorem sendAll_presses (s : State) (os : List Output) : (s.sendAll os).presses = s.presses := by
  unfold sendAll
  induction os generalizing s with
  | nil => rfl
  | cons o os ih => exact ih (s.send o)

@[simp] theorem sendAll_armed (s : State) (os : List Output) : (s.sendAll os).armed = s.armed := by
  unfold sendAll
  induction os generalizing s with
  | nil => rfl
  | cons o os ih => exact ih (s.send o)

theorem sendWaiting_foldl (l : List Armed) (s : State) :
    (l.foldl sendWaiting s).output = s.output ++ (l.flatMap (·.keys)).map .down ∧
      (l.foldl sendWaiting s).presses = s.presses ∧ (l.foldl sendWaiting s).armed = s.armed := by
  induction l generalizing s with
  | nil => simp
  | cons a l ih =>
    obtain ⟨ho, hp, ha⟩ := ih (s.sendWaiting a)
    refine ⟨?_, hp.trans ?_, ha.trans ?_⟩
    · rw [List.foldl_cons, ho]
      simp [sendWaiting, note]
    · simp [sendWaiting, note]
    · simp [sendWaiting, note]

theorem sendArmed_output (s : State) : s.sendArmed.output = s.output ++ s.armedKeys.map .down :=
  (sendWaiting_foldl _ _).1

theorem sendArmed_presses (s : State) : s.sendArmed.presses = s.presses := (sendWaiting_foldl _ _).2.1

theorem sendArmed_armed (s : State) : s.sendArmed.armed = s.armed.map fun a => { a with isSent := true } :=
  (sendWaiting_foldl _ _).2.2

def pressed (s : State) : List Key := s.presses.flatMap (·.outputs)

/-- The keys of lazy strokes that are down. -/
def lazyDown (s : State) : List Key := (s.armed.filter (·.isSent)).flatMap (·.keys)

end State

theorem State.pressed_updatePress {s : State} (hn : s.ids.Nodup) {p : Press} (hp : p ∈ s.presses)
    (f : Press → Press) : ∃ others, s.pressed.Perm (p.outputs ++ others) ∧
      (s.updatePress p.id f).pressed.Perm ((f p).outputs ++ others) :=
  ⟨(s.drop p.id).pressed, (perm_cons_filter hn hp).flatMap_right Press.outputs,
    (perm_updatePress hn hp f).flatMap_right Press.outputs⟩

/-! ## The account of a state -/

/-- The outputs `taken` and those not yet taken leave down what the presses hold, the lazy strokes that were
sent, and what is `owed`. Every lazy stroke belongs to a press in flight. -/
structure Balanced (taken : List Output) (s : State) (owed : List Key) : Prop where
  ledger : Ledger (taken ++ s.output) (owed ++ (s.pressed ++ s.lazyDown))
  ids_nodup : s.ids.Nodup
  owned : ∀ a ∈ s.armed, a.press ∈ s.ids

section
variable {taken : List Output} {owed : List Key}

theorem Balanced.congr {s t : State} {left : List Key} (h : Balanced taken s owed)
    (output : t.output = s.output) (ids : t.ids = s.ids) (armed : ∀ a ∈ t.armed, a.press ∈ s.ids)
    (held : (left ++ (t.pressed ++ t.lazyDown)).Perm (owed ++ (s.pressed ++ s.lazyDown))) :
    Balanced taken t left where
  ledger := by
    rw [output]
    exact h.ledger.perm held
  ids_nodup := ids ▸ h.ids_nodup
  owned a ha := ids ▸ armed a ha

theorem Balanced.perm {s : State} {left : List Key} (h : Balanced taken s owed) (hp : left.Perm owed) :
    Balanced taken s left := h.congr rfl rfl h.owned (hp.append_right _)

/-- A step that writes neither outputs nor lazy keys and keeps what the presses hold. -/
theorem Balanced.frame {s t : State} (h : Balanced taken s owed) (output : t.output = s.output)
    (armed : t.armed = s.armed) (ids : t.ids = s.ids) (pressed : t.pressed = s.pressed) :
    Balanced taken t owed := by
  refine h.congr output ids (armed ▸ h.owned) ?_
  rw [pressed, State.lazyDown, armed, State.lazyDown]

theorem Balanced.note {s : State} (h : Balanced taken s owed) (i : Incident) :
    Balanced taken (s.note i) owed := h.frame rfl rfl rfl rfl

theorem Balanced.paste {s : State} (h : Balanced taken s owed) (text : String) :
    Balanced taken (s.send (.paste text)) owed where
  ledger := by
    have hl := h.ledger.paste text
    rwa [List.append_assoc] at hl
  ids_nodup := h.ids_nodup
  owned := h.owned

theorem Balanced.downs {s : State} (h : Balanced taken s owed) (ks : List Key) :
    Balanced taken (s.sendAll (ks.map .down)) (ks ++ owed) where
  ledger := by
    have hl := h.ledger.downs ks
    simp only [State.pressed, State.lazyDown, State.sendAll_output, State.sendAll_presses, State.sendAll_armed,
      List.append_assoc] at hl ⊢
    exact hl
  ids_nodup := by
    simp only [State.ids, State.sendAll_presses]
    exact h.ids_nodup
  owned := by
    simp only [State.ids, State.sendAll_presses, State.sendAll_armed]
    exact h.owned

theorem Balanced.sendUps {s : State} {ks : List Key} (h : Balanced taken s (ks ++ owed)) :
    Balanced taken (s.sendUps ks) owed where
  ledger := by
    have hl := (h.perm ((List.reverse_perm ks).append_right owed)).ledger
    rw [List.append_assoc] at hl
    have hu := hl.ups
    simp only [State.pressed, State.lazyDown, State.sendUps, State.sendAll_output, State.sendAll_presses,
      State.sendAll_armed, List.append_assoc] at hu ⊢
    exact hu
  ids_nodup := by
    simp only [State.ids, State.sendUps, State.sendAll_presses]
    exact h.ids_nodup
  owned := by
    simp only [State.ids, State.sendUps, State.sendAll_presses, State.sendAll_armed]
    exact h.owned

/-- The keys of all lazy strokes are those that wait and those that are down. -/
theorem State.lazy_perm (s : State) : (s.armed.flatMap (·.keys)).Perm (s.armedKeys ++ s.lazyDown) := by
  unfold armedKeys lazyDown
  rw [← List.flatMap_append]
  refine ((List.filter_append_perm (fun a : Armed => !a.isSent) s.armed).symm.trans ?_).flatMap_right _
  simp

/-- Waiting lazy keys that go out are held from then on. -/
theorem Balanced.sendArmed {s : State} (h : Balanced taken s owed) : Balanced taken s.sendArmed owed := by
  refine (h.downs s.armedKeys).congr ?_ ?_ ?_ ?_
  · rw [State.sendArmed_output, State.sendAll_output]
  · simp only [State.ids, State.sendArmed_presses, State.sendAll_presses]
  · intro a ha
    rw [State.sendArmed_armed] at ha
    obtain ⟨c, hc, rfl⟩ := List.mem_map.1 ha
    simp only [State.ids, State.sendAll_presses]
    exact h.owned c hc
  · have hl : s.sendArmed.lazyDown = s.armed.flatMap (·.keys) := by
      rw [State.lazyDown, State.sendArmed_armed, List.filter_eq_self.2 (by simp), List.flatMap_map]
    have hp : s.sendArmed.pressed = s.pressed := by rw [State.pressed, State.sendArmed_presses, State.pressed]
    rw [hl, hp]
    simp only [State.pressed, State.lazyDown, State.sendAll_presses, State.sendAll_armed]
    refine List.perm_iff_count.2 fun k => ?_
    have hk := s.lazy_perm.count_eq k
    simp only [State.lazyDown, List.count_append] at hk ⊢
    omega

theorem Balanced.sendDown {s : State} (h : Balanced taken s owed) (k : Key) :
    Balanced taken (s.sendDown k) (k :: owed) := by
  unfold State.sendDown
  split
  · exact h.downs [k]
  · exact h.sendArmed.downs [k]

theorem Balanced.sendDowns {s : State} (h : Balanced taken s owed) (ks : List Key) :
    Balanced taken (s.sendDowns ks) (ks ++ owed) := by
  unfold State.sendDowns
  induction ks generalizing s owed with
  | nil => exact h
  | cons k ks ih => exact (ih (h.sendDown k)).perm List.perm_middle.symm

theorem Balanced.holdDown {s : State} (h : Balanced taken s owed) {id : Nat} (hi : id ∈ s.ids)
    (ks : List Key) : Balanced taken (s.holdDown id ks) owed := by
  have hd := h.sendDowns ks
  have hids := State.ids_of_bare (State.bare_sendDowns s ks)
  rw [← hids] at hi
  obtain ⟨p, hp, rfl⟩ := List.mem_map.1 hi
  obtain ⟨others, before, after⟩ := State.pressed_updatePress hd.ids_nodup hp
    fun p => { p with outputs := p.outputs ++ ks }
  have hu : (s.holdDown p.id ks).ids = (s.sendDowns ks).ids := State.updatePress_ids (fun _ => by rfl) _ _
  refine hd.congr rfl hu hd.owned ?_
  refine List.perm_iff_count.2 fun k => ?_
  have hb := before.count_eq k
  have ha := after.count_eq k
  simp only [List.count_append, State.holdDown, State.lazyDown, State.updatePress] at ha hb ⊢
  omega

theorem Balanced.arm {s : State} (h : Balanced taken s owed) {id : Nat} (hi : id ∈ s.ids) (ks : List Key) :
    Balanced taken (s.arm id ks) owed := by
  refine h.congr rfl rfl (fun a ha => ?_) ?_
  · rcases List.mem_append.1 ha with ha | ha
    · exact h.owned a ha
    · rw [List.mem_singleton.1 ha]
      exact hi
  · simp [State.arm, State.note, State.lazyDown, State.pressed]

theorem Balanced.sendEvent {s : State} (h : Balanced taken s owed) {holder : Option Nat}
    (hi : ∀ id, holder = some id → id ∈ s.ids) (e : Event) :
    Balanced taken (State.sendEvent holder s e) owed := by
  cases e with
  | setFlag f value =>
    refine h.frame ?_ ?_ ?_ ?_ <;> (simp only [State.sendEvent, State.setFlag]; split <;> rfl)
  | paste text => exact h.paste text
  | stroke stroke =>
    cases holder with
    | none => exact (h.sendDowns _).sendUps
    | some id =>
      simp only [State.sendEvent]
      split
      · exact h.arm (hi id rfl) _
      · exact h.holdDown (hi id rfl) _

theorem Balanced.sendEvents {s : State} (h : Balanced taken s owed) {holder : Option Nat}
    (hi : ∀ id, holder = some id → id ∈ s.ids) (es : List Event) :
    Balanced taken (s.sendEvents holder es) owed := by
  unfold State.sendEvents
  induction es generalizing s with
  | nil => exact h
  | cons e es ih =>
    have hids := State.ids_of_bare (State.bare_sendEvent holder s e)
    exact ih (h.sendEvent hi e) fun id hd => hids ▸ hi id hd

theorem Balanced.emit {s : State} (h : Balanced taken s owed) (press rule : Nat) (stage : Stage)
    {holder : Option Nat} (hi : ∀ id, holder = some id → id ∈ s.ids) (es : List Event) :
    Balanced taken (s.emit press rule stage holder es) owed := (h.note _).sendEvents hi es

/-! ## Presses that end -/

theorem State.pressed_update {f : Press → Press} (hf : ∀ p, (f p).outputs = p.outputs) (s : State) (id : Nat) :
    (s.updatePress id f).pressed = s.pressed := by
  simp only [pressed, updatePress, List.flatMap_map]
  refine List.flatMap_congr fun p _ => ?_
  split
  · exact hf p
  · rfl

theorem Balanced.letGo {s : State} (h : Balanced taken s owed) {p : Press} (hp : p ∈ s.presses) :
    Balanced taken ((s.sendUps p.outputs).updatePress p.id fun q => { q with outputs := [] }) owed := by
  obtain ⟨others, before, after⟩ := State.pressed_updatePress h.ids_nodup hp fun q => { q with outputs := [] }
  have hu : ((s.sendUps p.outputs).updatePress p.id fun q => { q with outputs := [] }).presses =
      (s.updatePress p.id fun q => { q with outputs := [] }).presses := by
    simp only [State.updatePress, State.sendUps, State.sendAll_presses]
  have hl : (p.outputs.reverse ++ (owed ++ (others ++ s.lazyDown))).Perm
      (owed ++ (s.pressed ++ s.lazyDown)) := by
    refine List.perm_iff_count.2 fun k => ?_
    have hb := before.count_eq k
    simp only [List.count_append, List.count_reverse] at hb ⊢
    omega
  have hi : ((s.sendUps p.outputs).updatePress p.id fun q => { q with outputs := [] }).ids = s.ids := by
    simp only [State.ids, hu]
    exact State.updatePress_ids (fun _ => by rfl) s p.id
  refine ⟨?_, hi ▸ h.ids_nodup, ?_⟩
  · have hs := (h.ledger.perm hl).ups
    rw [List.append_assoc] at hs
    simp only [State.pressed, State.lazyDown, hu]
    simp only [State.updatePress, State.sendUps, State.sendAll_output, State.sendAll_armed]
    refine hs.perm (List.Perm.append_left _ (List.Perm.append_right _ ?_))
    exact after
  · intro a ha
    simp only [State.updatePress, State.sendUps, State.sendAll_armed] at ha
    exact hi ▸ h.owned a ha

def Armed.down (a : Armed) : List Key := if a.isSent then a.keys else []

theorem lazyDown_eq (s : State) : s.lazyDown = s.armed.flatMap Armed.down := by
  unfold State.lazyDown
  induction s.armed with
  | nil => rfl
  | cons a l ih =>
    cases ha : a.isSent with
    | true => simp [List.filter_cons_of_pos ha, Armed.down, ha, ih]
    | false => simp [List.filter_cons_of_neg (Bool.eq_false_iff.1 ha), Armed.down, ha, ih]

theorem Balanced.disarm {s : State} {a : Armed} (h : Balanced taken s (a.down ++ owed)) :
    Balanced taken (s.disarm a) owed := by
  unfold Armed.down at h
  simp only [State.disarm]
  split
  · rename_i ha
    rw [if_pos ha] at h
    exact (h.note _).sendUps
  · rename_i ha
    rw [if_neg ha] at h
    exact h.note _

theorem Balanced.disarmAll {s : State} {l : List Armed} (h : Balanced taken s (l.flatMap Armed.down ++ owed)) :
    Balanced taken (l.foldl State.disarm s) owed := by
  induction l generalizing s with
  | nil => exact h
  | cons a l ih =>
    rw [List.flatMap_cons, List.append_assoc] at h
    exact ih h.disarm

/-- A press in flight lets go of all it holds, its lazy strokes included. -/
theorem Balanced.releaseOutputs {s : State} (h : Balanced taken s owed) {p : Press} (hp : p ∈ s.presses) :
    Balanced taken (s.releaseOutputs p) owed := by
  have hl := h.letGo hp
  refine Balanced.disarmAll (hl.congr rfl rfl (fun a ha => hl.owned a (List.mem_filter.1 ha).1) ?_)
  have hf := (List.filter_append_perm (fun a : Armed => a.press == p.id) s.armed).flatMap_right Armed.down
  refine List.perm_iff_count.2 fun k => ?_
  have hk := hf.count_eq k
  have hr := (List.reverse_perm (s.armed.filter fun a => a.press == p.id)).flatMap_right Armed.down |>.count_eq k
  simp only [lazyDown_eq, State.updatePress, State.sendUps, State.sendAll_armed, List.flatMap_append,
    List.count_append, State.pressed, bne] at hk hr ⊢
  omega

theorem disarm_foldl (l : List Armed) (s : State) :
    (l.foldl State.disarm s).presses = s.presses ∧ (l.foldl State.disarm s).armed = s.armed := by
  induction l generalizing s with
  | nil => exact ⟨rfl, rfl⟩
  | cons a l ih =>
    obtain ⟨hp, ha⟩ := ih (s.disarm a)
    refine ⟨hp.trans ?_, ha.trans ?_⟩
    · simp only [State.disarm]
      split <;> simp [State.sendUps, State.note]
    · simp only [State.disarm]
      split <;> simp [State.sendUps, State.note]

/-- After that neither outputs nor lazy strokes of the press are left. -/
theorem State.releaseOutputs_cleared (s : State) (p : Press) :
    (∀ q ∈ (s.releaseOutputs p).presses, q.id = p.id → q.outputs = []) ∧
      ∀ a ∈ (s.releaseOutputs p).armed, a.press ≠ p.id := by
  simp only [releaseOutputs, (disarm_foldl _ _).1, (disarm_foldl _ _).2]
  constructor
  · intro q hq he
    obtain ⟨r, -, rfl⟩ := List.mem_map.1 hq
    by_cases hr : r.id = p.id
    · rw [if_pos hr]
    · rw [if_neg hr] at he
      exact absurd he hr
  · intro a ha
    exact bne_iff_ne.1 (List.mem_filter.1 ha).2

theorem Balanced.drop {s : State} (h : Balanced taken s owed) {id : Nat}
    (outputs : ∀ q ∈ s.presses, q.id = id → q.outputs = []) (armed : ∀ a ∈ s.armed, a.press ≠ id) :
    Balanced taken (s.drop id) owed := by
  have hf := (List.filter_append_perm (fun q : Press => q.id != id) s.presses).flatMap_right Press.outputs
  have hg : (s.presses.filter fun q => !(q.id != id)).flatMap Press.outputs = [] := by
    refine List.flatMap_eq_nil_iff.2 fun q hq => ?_
    obtain ⟨hq, he⟩ := List.mem_filter.1 hq
    exact outputs q hq (by simpa using he)
  rw [List.flatMap_append, hg, List.append_nil] at hf
  refine ⟨h.ledger.perm (List.Perm.append_left _ (hf.append_right _)), ?_, fun a ha => ?_⟩
  · exact h.ids_nodup.sublist (List.filter_sublist.map _)
  · obtain ⟨q, hq, he⟩ := List.mem_map.1 (h.owned a ha)
    refine List.mem_map.2 ⟨q, List.mem_filter.2 ⟨hq, bne_iff_ne.2 ?_⟩, he⟩
    exact he ▸ armed a ha

/-! ## Operations -/

variable {rules : List Manipulator}

theorem Balanced.update {s : State} (h : Balanced taken s owed) {f : Press → Press}
    (hf : ∀ p, (f p).id = p.id ∧ (f p).outputs = p.outputs) (id : Nat) :
    Balanced taken (s.updatePress id f) owed :=
  h.frame rfl rfl (State.updatePress_ids (fun p => (hf p).1) s id) (State.pressed_update (fun p => (hf p).2) s id)

theorem Balanced.forgetPending {s : State} (h : Balanced taken s owed) (id : Nat) :
    Balanced taken (s.forgetPending id) owed := h.frame rfl rfl rfl rfl

theorem Balanced.startCountdown {s : State} (h : Balanced taken s owed) (id : Nat) (m : Manipulator)
    (instant : Nat) : Balanced taken (startCountdown id m instant s) owed := by
  unfold Engine.startCountdown
  split
  · exact h
  · exact h.frame rfl rfl rfl rfl

theorem Balanced.fire {s : State} (h : Balanced taken s owed) {d : Deadline} {timer : Timer}
    (first : earliest s.timers = some (d, timer)) : Balanced taken (fire rules s d timer) owed := by
  obtain ⟨p, -, -, rfl⟩ | ⟨p, hp, -, rfl⟩ := earliest_timers first
  · have hn := ((h.note (.fired d)).forgetPending p.press).note (.invoked p.rule d.instant)
    exact hn.emit p.press p.rule .invoked (fun _ hi => by cases hi) _
  · have hu := (h.note (.fired d)).update (f := Press.fired) (fun _ => ⟨rfl, rfl⟩) p.id
    have hid : p.id ∈ ((s.note (.fired d)).updatePress p.id Press.fired).ids := by
      have hi := State.updatePress_ids (f := Press.fired) (fun _ => rfl) (s.note (.fired d)) p.id
      rw [State.ids, hi]
      exact List.mem_map_of_mem hp
    have hin : ∀ id, some p.id = some id → id ∈ ((s.note (.fired d)).updatePress p.id Press.fired).ids := by
      rintro id ⟨rfl⟩
      exact hid
    simp only [Engine.fire, fireHold]
    split
    · exact hu
    · rename_i i _
      have he := hu.emit p.id i .hold hin (eventsOf rules i (·.onHold))
      split
      · exact he.forgetPending p.id
      · exact he

theorem Balanced.endCountdown {s : State} (h : Balanced taken s owed) (keys : List Key) (p : Pending) :
    Balanced taken (endCountdown rules keys s p) owed := by
  unfold Engine.endCountdown
  split
  · exact h.note _
  · exact h.emit _ _ _ (fun _ hi => by cases hi) _

theorem Balanced.disturbed {s : State} (h : Balanced taken s owed) (keys : List Key) (rule : Option Nat)
    (instant : Nat) : Balanced taken (disturbed rules keys rule instant s) owed := by
  have hall : ∀ (l : List Pending) (t : State), Balanced taken t owed →
      Balanced taken (l.foldl (Engine.endCountdown rules keys) t) owed := by
    intro l
    induction l with
    | nil => exact fun t ht => ht
    | cons p l ih => exact fun t ht => ih _ (ht.endCountdown keys p)
  have hi := hall ((s.note (.dispatched (s.serial + 1) keys rule instant s.flags)).pending.filter
    (·.deadline.isSome)) { s.note (.dispatched (s.serial + 1) keys rule instant s.flags) with
      presses := s.presses.map Press.disturb, pending := s.pending.filter (·.deadline.isNone) }
    (h.frame rfl rfl (by simp [State.ids, Function.comp_def, Press.disturb])
      (by simp [State.pressed, List.flatMap_map, Press.disturb]))
  exact hi.frame rfl rfl rfl rfl

theorem disturbed_ids (keys : List Key) (rule : Option Nat) (instant : Nat) (s : State) :
    (disturbed rules keys rule instant s).ids = s.ids := by
  rw [← State.ids_bare, bare_disturbed]
  simp [State.ids, Function.comp_def, Press.disturb]

theorem Balanced.add {s t : State} (h : Balanced taken s owed) {p : Press} (fresh : p.id ∉ s.ids)
    (empty : p.outputs = []) (presses : t.presses = s.presses ++ [p]) (output : t.output = s.output)
    (armed : t.armed = s.armed) : Balanced taken t owed where
  ledger := by
    rw [output, State.pressed, presses, List.flatMap_append, List.flatMap_singleton, empty, List.append_nil,
      State.lazyDown, armed]
    exact h.ledger
  ids_nodup := by
    rw [State.ids, presses, List.map_append, List.nodup_append]
    refine ⟨h.ids_nodup, by simp, fun a ha b hb he => fresh ?_⟩
    rw [List.map_singleton, List.mem_singleton] at hb
    rw [← hb, ← he]
    exact ha
  owned a ha := by
    rw [State.ids, presses, List.map_append]
    exact List.mem_append_left _ (h.owned a (armed ▸ ha))

theorem Balanced.dispatch {s : State} (h : Balanced taken s owed) (fresh : s.serial + 1 ∉ s.ids)
    (keys : List Key) (rule : Option Nat) (instant : Nat) :
    Balanced taken (dispatch rules keys rule instant s) owed := by
  have hd : Balanced taken (Engine.disturbed rules keys rule instant s) owed := h.disturbed keys rule instant
  have hids : (Engine.disturbed rules keys rule instant s).ids = s.ids := disturbed_ids keys rule instant s
  obtain ⟨i, m, rfl, hm⟩ | hr := rule_cases rules rule
  · have hs : (Engine.disturbed rules keys (some i) instant s).serial = s.serial + 1 := rfl
    rw [dispatch_rule rules keys hm, beginRule_eq hs]
    refine Balanced.emit ?_ _ _ _ (fun id hi => ?_) _
    · exact hd.add (p := begun (s.serial + 1) keys i instant m) (hids ▸ fresh) rfl rfl rfl rfl
    · rw [← Option.some.inj hi]
      simp [State.ids, begun]
  · rw [dispatch_plain rules keys hr]
    have ha : Balanced taken { Engine.disturbed rules keys rule instant s with
        presses := (Engine.disturbed rules keys rule instant s).presses ++
          [{ id := s.serial + 1, held := keys, rule := none, since := instant }] } owed :=
      hd.add (hids ▸ fresh) rfl rfl rfl rfl
    refine ha.holdDown ?_ keys
    simp [State.ids]

theorem Balanced.endRule {s : State} (h : Balanced taken s owed) (p : Press) (i : Nat) (m : Manipulator)
    (instant : Nat) : Balanced taken (endRule p i m instant s) owed := by
  have ht : Balanced taken (if isTap m p instant then s.emit p.id i .tap none m.onTap else s) owed := by
    split
    · exact h.emit _ _ _ (fun _ hi => by cases hi) _
    · exact h
  simp only [Engine.endRule]
  split
  · exact ht.forgetPending p.id
  · exact (ht.emit _ _ _ (fun _ hi => by cases hi) _).startCountdown _ _ _

theorem Balanced.endPress {s : State} (h : Balanced taken s owed) {p : Press}
    (outputs : ∀ q ∈ s.presses, q.id = p.id → q.outputs = []) (armed : ∀ a ∈ s.armed, a.press ≠ p.id)
    (instant : Nat) : Balanced taken (endPress rules p instant s) owed := by
  have hd := (h.drop outputs armed).note (.released p.id)
  unfold Engine.endPress
  simp only
  split
  · exact hd
  · split
    · exact hd
    · exact hd.endRule _ _ _ _

theorem Balanced.release {s : State} (h : Balanced taken s owed) (k : Key) (instant : Nat) :
    Balanced taken (release rules k instant s) owed := by
  cases hk : s.holder? k with
  | none =>
    rw [release_none rules hk]
    exact h.note _
  | some p =>
    have hu := h.update (f := Press.keep (p.held.filter (· != k))) (fun _ => ⟨rfl, rfl⟩) p.id
    have hp : p.keep (p.held.filter (· != k)) ∈
        (s.updatePress p.id (Press.keep (p.held.filter (· != k)))).presses :=
      List.mem_map.2 ⟨p, (holder_mem hk).1, if_pos rfl⟩
    have hr := hu.releaseOutputs hp
    have hc := State.releaseOutputs_cleared
      (s.updatePress p.id (Press.keep (p.held.filter (· != k)))) (p.keep (p.held.filter (· != k)))
    simp only [Engine.release, hk]
    split
    · exact hr.endPress hc.1 hc.2 instant
    · exact hr

/-! ## Runs -/

theorem Balanced.move {x y : Session} (h : Balanced x.taken x.state []) (ho : Orderly rules x.state)
    (m : Move rules x y) : Balanced y.taken y.state [] := by
  have fresh : x.state.serial + 1 ∉ x.state.ids := by
    intro hi
    obtain ⟨p, hp, he⟩ := List.mem_map.1 hi
    have := ho.press_le p hp
    omega
  cases m with
  | fire first => exact h.fire first
  | dispatch simultaneous free oldest once single => exact h.dispatch fresh _ _ _
  | holdBack free oldest found together => exact h.frame rfl rfl rfl rfl
  | join held oldest narrowed some_left => exact h.frame rfl rfl rfl rfl
  | close held due => exact h.note _
  | @finish b i held idle first ready =>
    obtain ⟨more, hs, -⟩ := handOver_eq rules b i x.state
    have ht : Balanced x.taken (handOver rules b i x.state) [] := by
      rw [hs]
      exact h.frame rfl rfl rfl rfl
    simp only [finish_eq]
    refine ht.dispatch ?_ _ _ _
    rw [hs]
    exact fresh
  | flush held => exact h.frame rfl rfl rfl rfl

theorem Reachable.balanced {x : Session} (h : Reachable rules x) : Balanced x.taken x.state [] := by
  induction h with
  | start => exact ⟨ledger_nil, List.nodup_nil, fun a ha => by cases ha⟩
  | move hx m ih => exact ih.move hx.orderly m
  | @tick x _ _ instant ih =>
    obtain ⟨more, ht, -⟩ := x.state.tick_eq instant
    rw [ht]
    exact Balanced.frame ih rfl rfl rfl rfl
  | accept _ _ _ ih => exact ih.note _
  | refuse _ _ _ ih => exact ih.note _
  | release _ _ _ ih => exact ih.release _ _
  | take _ _ ih =>
    refine ⟨?_, ih.ids_nodup, ih.owned⟩
    rw [List.append_nil]
    exact ih.ledger

/-- In every prefix of what a run outputs no key goes up more often than it went down, and at the end exactly
the keys of the presses in flight and of their sent lazy strokes are down. Every lazy stroke belongs to a press
in flight, so without presses every key is up again. -/
theorem outputs_conserved (rules : List Manipulator) (inputs : List Input) (k : Key) :
    (∀ before, before <+: (session rules inputs).transcript → ups k before ≤ downs k before) ∧
    downs k (session rules inputs).transcript = ups k (session rules inputs).transcript +
      ((run rules inputs).presses.flatMap (·.outputs)).count k +
      (((run rules inputs).armed.filter (·.isSent)).flatMap (·.keys)).count k ∧
    (∀ a ∈ (run rules inputs).armed, ∃ p ∈ (run rules inputs).presses, p.id = a.press) ∧
    ((run rules inputs).presses = [] →
      downs k (session rules inputs).transcript = ups k (session rules inputs).transcript) := by
  have h := Reachable.balanced (reachable_session rules inputs).1
  rw [session_state] at h
  have hs : (session rules inputs).transcript = (session rules inputs).taken ++ (run rules inputs).output := by
    rw [Session.transcript, session_state]
  have owned : ∀ a ∈ (run rules inputs).armed, ∃ p ∈ (run rules inputs).presses, p.id = a.press :=
    fun a ha => List.mem_map.1 (h.owned a ha)
  have sum := h.ledger.balance k
  rw [List.nil_append, List.count_append, ← Nat.add_assoc] at sum
  rw [hs]
  refine ⟨h.ledger.prefixes k, sum, owned, fun idle => ?_⟩
  have unarmed : (run rules inputs).armed = [] := by
    refine List.eq_nil_iff_forall_not_mem.2 fun a ha => ?_
    obtain ⟨p, hp, -⟩ := owned a ha
    rw [idle] at hp
    cases hp
  rw [sum, State.pressed, State.lazyDown, idle, unarmed]
  rfl

end

end KeyRules.Engine
