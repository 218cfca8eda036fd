import KeyRules.Proofs.Engine.Keys

/-!
# The order of the journal

A hold is sent only for the press that began last, and a tap only for a press that has ended, at once or through its
delayed action. Both are facts about each line of the journal and the lines before it.
-/

namespace KeyRules.Engine

/-- Every line stands right after the lines before it. -/
def Chronicle (Q : List Incident → Incident → Prop) (journal : List Incident) : Prop :=
  ∀ before line after, journal = before ++ line :: after → Q before line

theorem chronicle_nil (Q : List Incident → Incident → Prop) : Chronicle Q [] := by
  intro before line after h
  simp at h

theorem Chronicle.append {Q : List Incident → Incident → Prop} {j more : List Incident} (h : Chronicle Q j)
    (hm : ∀ before line after, more = before ++ line :: after → Q (j ++ before) line) :
    Chronicle Q (j ++ more) := by
  intro before line after he
  rcases List.append_eq_append_iff.1 he with ⟨between, rfl, hb⟩ | ⟨between, rfl, hb⟩
  · cases between with
    | nil => exact hm [] line after (by simpa using hb)
    | cons l ls =>
      exact hm (l :: ls) line after hb
  · cases between with
    | nil =>
      have hq := hm [] line after hb.symm
      rwa [List.append_nil, List.append_nil] at hq
    | cons l ls =>
      rw [List.cons_append, List.cons.injEq] at hb
      obtain ⟨rfl, -⟩ := hb
      exact h before line ls rfl

theorem Chronicle.snoc {Q : List Incident → Incident → Prop} {j : List Incident} (h : Chronicle Q j) {l : Incident}
    (hl : Q j l) : Chronicle Q (j ++ [l]) := by
  refine h.append fun before line after he => ?_
  cases before with
  | nil =>
    obtain ⟨rfl, -⟩ := List.cons.inj he
    rw [List.append_nil]
    exact hl
  | cons c cs => simp at he

/-- A hold needs the press that began last, any other outcome but a drop one that has ended. -/
def Sound (before : List Incident) : Incident → Prop
  | .emitted press rule .hold =>
    ∃ b, (beginnings before).getLast? = some b ∧ b.press = press ∧ b.rule = some rule
  | .emitted press _ .tap | .emitted press _ .invoked | .emitted press _ .canceled => .released press ∈ before
  | _ => True

theorem Chronicle.extend {j more : List Incident} (h : Chronicle Sound j) (quiet : beginnings more = [])
    (hm : ∀ line ∈ more, ∀ between, beginnings between = [] → Sound (j ++ between) line) :
    Chronicle Sound (j ++ more) := by
  refine h.append fun before line after he => hm line ?_ before ?_
  · rw [he]
    exact List.mem_append_right _ List.mem_cons_self
  · rw [he, beginnings_append] at quiet
    exact (List.append_eq_nil_iff.1 quiet).1

structure Chronicled (s : State) : Prop where
  lines : Chronicle Sound s.journal
  /-- A hold timer runs for the press that began last only. -/
  timed : ∀ p ∈ s.presses, p.holdTimer.isSome = true →
    ∃ b, (beginnings s.journal).getLast? = some b ∧ b.press = p.id ∧ b.rule = p.rule
  /-- A countdown runs for a press that has ended only. -/
  ended : ∀ d ∈ s.pending, d.deadline.isSome = true → .released d.press ∈ s.journal

section
variable {rules : List Manipulator}

theorem Chronicled.write {s t : State} (h : Chronicled s) (more : List Incident)
    (journal : t.journal = s.journal ++ more) (quiet : beginnings more = [])
    (lines : ∀ line ∈ more, ∀ between, beginnings between = [] → Sound (s.journal ++ between) line)
    (presses : ∀ p ∈ t.presses, p.holdTimer.isSome = true →
      ∃ q ∈ s.presses, q.holdTimer.isSome = true ∧ q.id = p.id ∧ q.rule = p.rule)
    (pending : ∀ d ∈ t.pending, d.deadline.isSome = true → d ∈ s.pending ∨ .released d.press ∈ s.journal) :
    Chronicled t where
  lines := by
    rw [journal]
    exact h.lines.extend quiet lines
  timed p hp ht := by
    obtain ⟨q, hq, hs, hid, hr⟩ := presses p hp ht
    rw [journal, beginnings_append, quiet, List.append_nil, ← hid, ← hr]
    exact h.timed q hq hs
  ended d hd hs := by
    rw [journal]
    refine List.mem_append_left _ ?_
    rcases pending d hd hs with hd | hd
    · exact h.ended d hd hs
    · exact hd

theorem Chronicled.noteAll {s t : State} (h : Chronicled s) (more : List Incident)
    (journal : t.journal = s.journal ++ more) (plain : ∀ l ∈ more, l.begins? = none ∧ ∀ before, Sound before l)
    (presses : t.presses = s.presses) (pending : t.pending = s.pending) : Chronicled t := by
  refine h.write more journal (beginnings_eq_nil fun l hl => (plain l hl).1) (fun l hl _ _ => (plain l hl).2 _)
    (fun p hp ht => ⟨p, presses ▸ hp, ht, rfl, rfl⟩) (fun d hd _ => .inl (pending ▸ hd))

theorem Chronicled.note {s : State} (h : Chronicled s.bare) {l : Incident} (hs : l.isSending = false)
    (hb : l.begins? = none) (hl : ∀ before, Sound before l) : Chronicled (s.note l).bare := by
  rw [State.bare_note hs]
  refine h.noteAll [l] rfl (fun j hj => ?_) rfl rfl
  rw [List.mem_singleton.1 hj]
  exact ⟨hb, hl⟩

theorem Chronicled.fireCountdown {s : State} (h : Chronicled s.bare) {d : Deadline} {p : Pending}
    (hp : p ∈ s.pending) (runs : p.deadline = some d) : Chronicled (fire rules s d (.countdown p)).bare := by
  have he : Incident.released p.press ∈ s.bare.journal := h.ended p hp (by rw [runs]; rfl)
  rw [Engine.fire, bare_fireCountdown, State.bare_note rfl]
  refine h.write (fireLines d (.countdown p)) ?_ rfl (fun l hl between _ => ?_)
    (fun q hq ht => ⟨q, hq, ht, rfl, rfl⟩) (fun c hc _ => .inl (List.mem_filter.1 hc).1)
  · simp [State.note, State.forgetPending, fireLines]
  · simp only [fireLines, List.mem_cons, List.not_mem_nil, or_false] at hl
    rcases hl with rfl | rfl | rfl
    · trivial
    · trivial
    · exact List.mem_append_left _ he

theorem Press.fired_timer {ps : List Press} {id : Nat} {q : Press}
    (hq : q ∈ ps.map fun p => if p.id = id then p.fired else p) (ht : q.holdTimer.isSome = true) : q ∈ ps := by
  rcases Press.fired_of_id hq with ⟨-, -, hn⟩ | ⟨-, hq⟩
  · rw [hn] at ht
    cases ht
  · exact hq

/-- The press whose hold timer runs out is the one that began last. -/
theorem Chronicled.hold_lines {s : State} (h : Chronicled s.bare) {d : Deadline} {p : Press} (hp : p ∈ s.presses)
    (timer : p.holdTimer = some d) {i : Nat} (hr : p.rule = some i) :
    ∀ l ∈ [Incident.fired d, .emitted p.id i .hold], ∀ between, beginnings between = [] →
      Sound (s.bare.journal ++ between) l := by
  obtain ⟨b, hb, hid, hbr⟩ := h.timed p.bare (List.mem_map_of_mem hp) (by
    show p.holdTimer.isSome = true
    rw [timer]
    rfl)
  intro l hl between quiet
  simp only [List.mem_cons, List.not_mem_nil, or_false] at hl
  rcases hl with rfl | rfl
  · trivial
  · refine ⟨b, ?_, hid, hbr.trans hr⟩
    rw [beginnings_append, quiet, List.append_nil]
    exact hb

theorem Chronicled.fireHold {s : State} (h : Chronicled s.bare) {d : Deadline} {p : Press} (hp : p ∈ s.presses)
    (timer : p.holdTimer = some d) : Chronicled (fire rules s d (.hold p)).bare := by
  have presses : ∀ q ∈ (s.bare.updatePress p.id Press.fired).presses, q.holdTimer.isSome = true →
      ∃ r ∈ s.bare.presses, r.holdTimer.isSome = true ∧ r.id = q.id ∧ r.rule = q.rule :=
    fun q hq ht => ⟨q, Press.fired_timer hq ht, ht, rfl, rfl⟩
  rw [Engine.fire]
  cases hr : p.rule with
  | none =>
    rw [bare_fireHold_plain rules _ hr, State.bare_note rfl]
    refine h.write [.fired d] rfl rfl (fun l hl _ _ => ?_) presses (fun c hc _ => .inl hc)
    rw [List.mem_singleton.1 hl]
    trivial
  | some i =>
    have lines := h.hold_lines hp timer hr
    rw [bare_fireHold rules _ hr, State.bare_note rfl]
    split
    · refine h.write [.fired d, .emitted p.id i .hold] ?_ rfl lines presses
        (fun c hc _ => .inl (List.mem_filter.1 hc).1)
      simp [State.note, State.forgetPending, State.updatePress]
    · refine h.write [.fired d, .emitted p.id i .hold] ?_ rfl lines presses (fun c hc _ => .inl hc)
      simp [State.note, State.updatePress]

theorem Chronicled.fire {s : State} (h : Chronicled s.bare) {d : Deadline} {timer : Timer}
    (first : earliest s.timers = some (d, timer)) : Chronicled (fire rules s d timer).bare := by
  obtain ⟨p, hp, runs, rfl⟩ | ⟨p, hp, timer, rfl⟩ := earliest_timers first
  · exact h.fireCountdown hp runs
  · exact h.fireHold hp timer

/-- A press begins: it alone can have a hold timer, and no countdown goes on. -/
theorem Chronicled.begin {s t : State} (h : Chronicled s) {p : Press} {keys : List Key} {rule : Option Nat}
    {instant : Nat} {flags : List Flag} (more : List Incident)
    (journal : t.journal = s.journal ++ .dispatched p.id keys rule instant flags ::
      (s.running.map (ending keys) ++ more))
    (plain : ∀ l ∈ more, l.begins? = none ∧ ∀ before, Sound before l)
    (presses : t.presses = s.presses.map Press.disturb ++ [p])
    (timer : p.holdTimer.isSome = true → rule = p.rule) (rests : ∀ d ∈ t.pending, d.deadline = none) :
    Chronicled t := by
  have quiet : beginnings (s.running.map (ending keys) ++ more) = [] := by
    rw [beginnings_append, beginnings_endings, beginnings_eq_nil fun l hl => (plain l hl).1]
    rfl
  have first : Chronicle Sound (s.journal ++ [.dispatched p.id keys rule instant flags]) := h.lines.snoc trivial
  refine ⟨?_, fun q hq ht => ?_, fun d hd hs => ?_⟩
  · rw [journal, List.append_cons]
    refine first.extend quiet fun l hl between _ => ?_
    rcases List.mem_append.1 hl with hl | hl
    · obtain ⟨d, hd, rfl | rfl⟩ := endings_mem hl
      · trivial
      · obtain ⟨hd, hs⟩ := List.mem_filter.1 hd
        exact List.mem_append_left _ (List.mem_append_left _ (h.ended d hd hs))
    · exact (plain l hl).2 _
  · rw [presses, List.mem_append, List.mem_singleton] at hq
    rcases hq with hq | rfl
    · obtain ⟨c, -, rfl⟩ := List.mem_map.1 hq
      cases ht
    · refine ⟨⟨q.id, keys, rule⟩, ?_, rfl, timer ht⟩
      rw [journal, beginnings_append, beginnings_cons, quiet]
      simp [Incident.begins?]
  · rw [rests d hd] at hs
    cases hs

theorem Chronicled.dispatch {s : State} (h : Chronicled s.bare) (keys : List Key) (rule : Option Nat)
    (instant : Nat) : Chronicled (dispatch rules keys rule instant s).bare := by
  obtain ⟨p, cs, n, he, hid, -, timer, -, added⟩ := dispatch_effect rules keys rule instant s
  have lines : s.bare.journal ++ dispatchLines rules keys rule instant s =
      s.bare.journal ++ .dispatched p.id keys rule instant s.flags ::
        (s.bare.running.map (ending keys) ++ beginLines rules (s.serial + 1) rule) := by
    rw [hid]
    rfl
  rw [he]
  refine h.begin (p := p) _ lines (fun l hl => ?_) rfl timer (fun d hd => ?_)
  · obtain ⟨i, rfl⟩ := beginLines_mem rules hl
    exact ⟨rfl, fun _ => trivial⟩
  · rcases List.mem_append.1 hd with hd | hd
    · exact resting_rests hd
    · exact (added d hd).1

theorem endLines_sound {p : Press} {i : Nat} {m : Manipulator} {instant : Nat} {before : List Incident}
    (ended : .released p.id ∈ before) : ∀ l ∈ endLines p i m instant, Sound before l := by
  intro l hl
  rcases endLines_mem hl with ⟨-, rfl⟩ | rfl
  · exact ended
  · trivial

/-- The line that a press ended stands before its tap and its countdown. -/
theorem Chronicled.endPress {s : State} (h : Chronicled s) (p : Press) (i : Nat) (m : Manipulator)
    (instant : Nat) : Chronicled (settled p i m instant ((s.drop p.id).note (.released p.id))) := by
  have hd : Chronicled ((s.drop p.id).note (.released p.id)) := by
    refine h.write [.released p.id] rfl rfl (fun l hl _ _ => ?_)
      (fun q hq ht => ⟨q, (List.mem_filter.1 hq).1, ht, rfl, rfl⟩) (fun d hd _ => .inl hd)
    rw [List.mem_singleton.1 hl]
    trivial
  have hr : Incident.released p.id ∈ ((s.drop p.id).note (.released p.id)).journal :=
    List.mem_append_right _ (List.mem_singleton.2 rfl)
  have hp := @settled_pending p i m instant ((s.drop p.id).note (.released p.id))
  obtain ⟨n, ps, -, he⟩ := settled_eq p i m instant ((s.drop p.id).note (.released p.id))
  rw [he] at hp ⊢
  refine hd.write _ rfl (endLines_beginnings p i m instant)
    (fun l hl between _ => endLines_sound (List.mem_append_left between hr) l hl)
    (fun q hq ht => ⟨q, hq, ht, rfl, rfl⟩) fun d hd _ => ?_
  refine (hp hd).imp_right ?_
  rintro ⟨d, -, e, hid, rfl⟩
  rw [hid]
  exact hr

theorem Chronicled.release {s : State} (h : Chronicled s.bare) (k : Key) (instant : Nat) :
    Chronicled (release rules k instant s).bare := by
  cases hk : s.holder? k with
  | none =>
    rw [release_none rules hk]
    exact h.note rfl rfl fun _ => trivial
  | some p =>
    rw [bare_release rules hk]
    split
    · obtain ⟨i, m, hr, hm⟩ | hr := rule_cases rules p.rule
      · rw [bare_endPress_rule rules hr hm]
        exact h.endPress p i m instant
      · rw [bare_endPress_plain rules hr]
        refine h.write [.released p.id] rfl rfl (fun l hl _ _ => ?_)
          (fun q hq ht => ⟨q, (List.mem_filter.1 hq).1, ht, rfl, rfl⟩) (fun d hd _ => .inl hd)
        rw [List.mem_singleton.1 hl]
        trivial
    · refine h.write [] (List.append_nil _).symm rfl (fun l hl => (List.not_mem_nil hl).elim)
        (fun q hq ht => ?_) (fun d hd _ => .inl hd)
      obtain ⟨c, hc, rfl⟩ := List.mem_map.1 hq
      refine ⟨c, hc, ?_⟩
      split at ht
      · rename_i he
        exact ⟨ht, by rw [if_pos he]; rfl, by rw [if_pos he]; rfl⟩
      · rename_i he
        exact ⟨ht, by rw [if_neg he], by rw [if_neg he]⟩

theorem Chronicled.move {x y : Session} (h : Chronicled x.state.bare) (step : Move rules x y) :
    Chronicled y.state.bare := by
  cases step with
  | fire first => exact h.fire first
  | dispatch simultaneous free oldest once single => exact h.dispatch _ _ _
  | @holdBack k instant i free oldest found together =>
    have hn : Chronicled (x.state.note (.buffered k (openCandidates rules x.state k) x.state.flags)).bare :=
      h.note rfl rfl fun _ => trivial
    exact ⟨hn.lines, hn.timed, hn.ended⟩
  | join held oldest narrowed some_left =>
    exact h.noteAll [] (List.append_nil _).symm (fun l hl => (List.not_mem_nil hl).elim) rfl rfl
  | close held due => exact h.note rfl rfl fun _ => trivial
  | @finish b i held idle first ready =>
    obtain ⟨more, hs, hl⟩ := bare_handOver rules b i x.state
    have ht : Chronicled (handOver rules b i x.state).bare := by
      rw [hs]
      refine h.noteAll more rfl (fun l hm => ?_) rfl rfl
      obtain ⟨t, rfl⟩ := hl l hm
      exact ⟨rfl, fun _ => trivial⟩
    simp only [finish_eq]
    exact ht.dispatch _ _ _
  | @flush b held =>
    have hn : Chronicled (x.state.note (.flushed b.keys.length)).bare := h.note rfl rfl fun _ => trivial
    exact ⟨hn.lines, hn.timed, hn.ended⟩

theorem Reachable.chronicled {x : Session} (h : Reachable rules x) : Chronicled x.state.bare := by
  induction h with
  | start =>
    exact ⟨chronicle_nil _, fun _ hp => (List.not_mem_nil hp).elim, fun _ hd => (List.not_mem_nil hd).elim⟩
  | move _ step ih => exact ih.move step
  | @tick x _ _ instant ih =>
    obtain ⟨more, ht, hl⟩ := x.state.bare_tick instant
    rw [ht]
    refine ih.noteAll more rfl (fun l hm => ?_) rfl rfl
    obtain ⟨t, n, rfl⟩ := hl l hm
    exact ⟨rfl, fun _ => trivial⟩
  | accept _ _ _ ih => exact ih.note rfl rfl fun _ => trivial
  | refuse _ _ _ ih => exact ih.note rfl rfl fun _ => trivial
  | release _ _ _ ih => exact ih.release _ _
  | take _ _ ih => exact ih

/-! ## Lines of a run -/

theorem Sound.mono {line : Incident} {before : List Incident}
    (h : Sound (before.filter fun i => !i.isSending) line) : Sound before line := by
  have hm : ∀ i : Incident, i ∈ (before.filter fun i => !i.isSending) → i ∈ before := fun i hi =>
    (List.mem_filter.1 hi).1
  have hb : beginnings (before.filter fun i => !i.isSending) = beginnings before :=
    beginnings_bare { journal := before }
  cases line with
  | emitted press rule stage =>
    cases stage with
    | hold =>
      obtain ⟨b, hl, hp⟩ := h
      exact ⟨b, hb ▸ hl, hp⟩
    | tap => exact hm _ h
    | invoked => exact hm _ h
    | canceled => exact hm _ h
    | press => trivial
    | release => trivial
  | _ => trivial

theorem Chronicled.sound {s : State} (h : Chronicled s.bare) {before after : List Incident} {line : Incident}
    (he : s.journal = before ++ line :: after) (hl : line.isSending = false) : Sound before line := by
  refine Sound.mono (h.lines _ line (after.filter fun i => !i.isSending) ?_)
  simp [State.bare, he, hl]

theorem last_beginning {journal : List Incident} {b : Beginning} (h : (beginnings journal).getLast? = some b) :
    ∃ earlier instant flags later, journal = earlier ++ .dispatched b.press b.keys b.rule instant flags :: later ∧
      beginnings later = [] := by
  obtain ⟨earlier, line, later, rfl, hl, quiet⟩ := filterMap_getLast h
  cases line with
  | dispatched press keys rule instant flags =>
    obtain rfl := Option.some.inj hl
    exact ⟨earlier, instant, flags, later, rfl, quiet⟩
  | _ => cases hl

end

end KeyRules.Engine
