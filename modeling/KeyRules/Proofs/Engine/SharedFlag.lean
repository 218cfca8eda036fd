import KeyRules.Proofs.Engine.Flags
import KeyRules.Proofs.Engine.Origins
import Mathlib.Data.List.TakeWhile

/-!
# Flags that several rules share

Each of the rules sets the flag when its press begins and clears it when the press ends, whatever other presses of them
are in flight. So the flag is set exactly if one of their presses is in flight and none of them ended since it began
(`Reachable.lit`).
-/

namespace KeyRules.Engine

/-! ## Presses that ended since another began -/

/-- The presses that ended since one began. -/
def endedSince (press : Nat) (journal : List Incident) : List Nat :=
  endedPresses (journal.dropWhile fun l => l.begins?.all (·.press != press))

theorem endedSince_bare (press : Nat) (j : List Incident) :
    endedSince press (j.filter fun i => !i.isSending) = endedSince press j := by
  unfold endedSince
  induction j with
  | nil => rfl
  | cons l j ih =>
    cases hl : l.isSending with
    | true =>
      rw [List.filter_cons_of_neg (by simp [hl]), ih, List.dropWhile_cons, begins_of_sending l hl]
      rfl
    | false =>
      rw [List.filter_cons_of_pos (by simp [hl]), List.dropWhile_cons, List.dropWhile_cons]
      split
      · exact ih
      · have h := filterMap_bare releases_of_sending (l :: j)
        rw [List.filter_cons_of_pos (by simp [hl])] at h
        exact h

theorem endedSince_append {press : Nat} {j : List Incident} (began : ∃ b ∈ beginnings j, b.press = press)
    (more : List Incident) : endedSince press (j ++ more) = endedSince press j ++ endedPresses more := by
  obtain ⟨b, hb, hid⟩ := began
  obtain ⟨l, hl, he⟩ := List.mem_filterMap.1 hb
  have left : (j.dropWhile fun l => l.begins?.all (·.press != press)).isEmpty = false := by
    refine Bool.eq_false_iff.2 fun hn => ?_
    have ha := List.dropWhile_eq_nil_iff.1 (List.isEmpty_iff.1 hn) l hl
    simp [he, hid] at ha
  rw [endedSince, List.dropWhile_append, left]
  exact List.filterMap_append

theorem endedSince_begins {press : Nat} {j : List Incident} (fresh : ∀ b ∈ beginnings j, b.press ≠ press)
    {l : Incident} {b : Beginning} (hl : l.begins? = some b) (hb : b.press = press) (more : List Incident) :
    endedSince press (j ++ l :: more) = endedPresses (l :: more) := by
  have skipped : (j.dropWhile fun l => l.begins?.all (·.press != press)) = [] := by
    refine List.dropWhile_eq_nil_iff.2 fun i hi => ?_
    cases hc : i.begins? with
    | none => rfl
    | some c => simpa using fresh c (List.mem_filterMap.2 ⟨i, hi, hc⟩)
  rw [endedSince, List.dropWhile_append, skipped]
  simp [hl, hb]

theorem endedSince_subset (press : Nat) (j : List Incident) : endedSince press j ⊆ endedPresses j :=
  List.filterMap_subset _ (List.dropWhile_sublist _).subset

/-- What an operation adds to the presses that ended since one began. -/
theorem endedSince_lines {s t : State} {press : Nat} {more : List Incident}
    (journal : t.bare.journal = s.bare.journal ++ more) (began : ∃ b ∈ beginnings s.journal, b.press = press) :
    endedSince press t.journal = endedSince press s.journal ++ endedPresses more := by
  rw [← beginnings_bare] at began
  rw [← endedSince_bare press t.journal, ← endedSince_bare press s.journal]
  exact (congrArg (endedSince press) journal).trans (endedSince_append began more)

/-! ## Rules that share a flag -/

/-- The rule sets the flag with its press and clears it at the end of the press. -/
structure Raises (f : Flag) (m : Manipulator) : Prop where
  press : lastWrite f m.onPress = some true
  hold : lastWrite f m.onHold = none
  tap : lastWrite f m.onTap = none
  goesOn : halts m.onTap = false
  release : lastWrite f m.onRelease = some false
  invoked : lastWrite f (onInvoked m) = none
  canceled : lastWrite f (onCanceled m) = none

/-- These rules raise the flag, and no other one writes it. -/
structure Shared (rules : List Manipulator) (f : Flag) (of : Nat → Prop) : Prop where
  raises : ∀ i, of i → ∃ m, rules[i]? = some m ∧ Raises f m
  sole : ∀ j n, rules[j]? = some n → n.Writes f → of j

def Among (of : Nat → Prop) (rule : Option Nat) : Prop := ∃ i, rule = some i ∧ of i

/-- No press of the rules ended since this one began. -/
def Unended (of : Nat → Prop) (press : Nat) (journal : List Incident) : Prop :=
  ∀ b ∈ beginnings journal, Among of b.rule → b.press ∉ endedSince press journal

variable {f : Flag} {of : Nat → Prop}

theorem unended_congr {press : Nat} {j more : List Incident} (begun : beginnings more = beginnings j)
    (ended : endedSince press more = endedSince press j) : Unended of press more ↔ Unended of press j := by
  unfold Unended
  rw [begun, ended]

variable (f of) in
/-- The flag is set exactly if a press of the rules is in flight and none of them ended since it began. -/
def Lit (s : State) : Prop :=
  s.flag f = true ↔ ∃ o ∈ s.handled, Among of o.2 ∧ Unended of o.1 s.journal

section
variable {rules : List Manipulator}

theorem Shared.writes_other (h : Shared rules f of) {i : Nat} (hi : ¬of i) (press : Nat) (stage : Stage) :
    (Incident.emitted press i stage).writes? rules f = none :=
  writes_elsewhere (fun m hm hw => hi (h.sole i m hm hw)) press stage

/-- Only presses that begin and end write the flag. -/
theorem Shared.writes_between (h : Shared rules f of) (press i : Nat) {stage : Stage} (began : stage ≠ .press)
    (ended : stage ≠ .release) : (Incident.emitted press i stage).writes? rules f = none := by
  by_cases hi : of i
  · obtain ⟨m, hm, hr⟩ := h.raises i hi
    rw [writes_emitted hm]
    cases stage with
    | press => exact (began rfl).elim
    | tap => exact hr.tap
    | hold => exact hr.hold
    | release => exact (ended rfl).elim
    | invoked => exact hr.invoked
    | canceled => exact hr.canceled
  · exact h.writes_other hi press stage

theorem Shared.among_filter (h : Shared rules f of) (rule : Option Nat) :
    Among of (rule.filter fun i => rules[i]?.isSome) ↔ Among of rule := by
  constructor
  · rintro ⟨i, hr, hi⟩
    exact ⟨i, (Option.filter_eq_some_iff.1 hr).1, hi⟩
  · rintro ⟨i, hr, hi⟩
    obtain ⟨m, hm, -⟩ := h.raises i hi
    exact ⟨i, Option.filter_eq_some_iff.2 ⟨hr, by rw [hm]; rfl⟩, hi⟩

/-- A press of the rules and its beginning tell the same rule. -/
theorem Shared.among_beginning (h : Shared rules f of) {s : State} (ht : Traced rules s) (hn : Numbered s)
    {o : Nat × Option Nat} (ho : o ∈ s.handled) {b : Beginning} (hb : b ∈ beginnings s.journal)
    (hid : b.press = o.1) : Among of b.rule ↔ Among of o.2 := by
  obtain ⟨c, hc, hcid, hcr⟩ := ht.presses o ho
  obtain rfl : b = c := List.inj_on_of_nodup_map hn.press_nodup hb hc (hid.trans hcid.symm)
  rw [hcr, h.among_filter]

/-! ## One step -/

/-- An operation that leaves the flag, the presses of the rules and what ended of them alone. -/
theorem Lit.keep {s t : State} (hs : Lit f of s) (flag : t.flag f = s.flag f)
    (handled : ∀ o, Among of o.2 → (o ∈ t.handled ↔ o ∈ s.handled))
    (unended : ∀ o ∈ s.handled, Unended of o.1 t.journal ↔ Unended of o.1 s.journal) : Lit f of t := by
  rw [Lit, flag]
  refine Iff.trans hs ?_
  constructor
  · rintro ⟨o, ho, ha, hu⟩
    exact ⟨o, (handled o ha).2 ho, ha, (unended o ho).2 hu⟩
  · rintro ⟨o, ho, ha, hu⟩
    have ho := (handled o ha).1 ho
    exact ⟨o, ho, ha, (unended o ho).1 hu⟩

theorem Lit.lines {s t : State} (hs : Lit f of s) (ht : Traced rules s) {more : List Incident}
    (journal : t.bare.journal = s.bare.journal ++ more)
    (quiet : ∀ l ∈ more, l.begins? = none ∧ l.releases? = none) (flag : t.flag f = s.flag f)
    (handled : t.handled = s.handled) : Lit f of t := by
  refine hs.keep flag (fun o _ => by rw [handled]) fun o ho => ?_
  obtain ⟨b, hb, hid, -⟩ := ht.presses o ho
  refine unended_congr ?_ ?_
  · rw [beginnings_lines journal, beginnings_eq_nil fun l hl => (quiet l hl).1, List.append_nil]
  · rw [endedSince_lines journal ⟨b, hb, hid⟩, endedPresses_eq_nil fun l hl => (quiet l hl).2, List.append_nil]

theorem Lit.note {s : State} (hs : Lit f of s) (ht : Traced rules s) {l : Incident} (sending : l.isSending = false)
    (begins : l.begins? = none) (releases : l.releases? = none) : Lit f of (s.note l) := by
  have journal : (s.note l).bare.journal = s.bare.journal ++ [l] := by
    rw [State.bare_note sending]
    rfl
  refine hs.lines ht journal (fun i hi => ?_) rfl rfl
  rw [List.mem_singleton.1 hi]
  exact ⟨begins, releases⟩

theorem Lit.congr {s t : State} (hs : Lit f of s) (journal : t.journal = s.journal) (flags : t.flags = s.flags)
    (presses : t.presses = s.presses) : Lit f of t := by
  rw [Lit, State.flag_congr flags, journal, State.handled, presses]
  exact hs

theorem Lit.fire {s : State} (hs : Lit f of s) (h : Shared rules f of) (ht : Traced rules s) (d : Deadline)
    (timer : Timer) : Lit f of (fire rules s d timer) := by
  refine hs.lines ht (fire_journal rules s d timer) (fun l hl => ?_) ?_ (fire_handled s d timer)
  · obtain rfl | ⟨p, -, rfl | rfl⟩ | ⟨p, i, -, -, rfl⟩ := fireLines_mem hl <;> exact ⟨rfl, rfl⟩
  · have quiet : written rules f (fireLines d timer) = none := written_eq_none fun l hl => by
      obtain rfl | ⟨p, -, rfl | rfl⟩ | ⟨p, i, -, -, rfl⟩ := fireLines_mem hl
      · rfl
      · rfl
      · exact h.writes_between p.press p.rule Stage.noConfusion Stage.noConfusion
      · exact h.writes_between p.id i Stage.noConfusion Stage.noConfusion
    rw [fire_flag, quiet]
    rfl

/-- A press of the rules sets the flag when it begins. -/
theorem Shared.written_dispatch (h : Shared rules f of) (keys : List Key) (rule : Option Nat) (instant : Nat)
    (s : State) :
    (Among of rule → written rules f (dispatchLines rules keys rule instant s) = some true) ∧
      (¬Among of rule → written rules f (dispatchLines rules keys rule instant s) = none) := by
  have endings : written rules f (s.running.map (ending keys)) = none := written_eq_none fun l hl => by
    obtain ⟨d, -, rfl | rfl⟩ := endings_mem hl
    · rfl
    · exact h.writes_between d.press d.rule Stage.noConfusion Stage.noConfusion
  rw [dispatchLines, written_cons_quiet rfl, written_append, endings, Option.or_none]
  constructor
  · rintro ⟨i, rfl, hi⟩
    obtain ⟨m, hm, hr⟩ := h.raises i hi
    have begins : beginLines rules (s.serial + 1) (some i) = [.emitted (s.serial + 1) i .press] := by
      simp [beginLines, Option.filter, hm]
    rw [begins, written_cons, writes_emitted hm]
    exact hr.press
  · intro hn
    refine written_eq_none fun l hl => ?_
    obtain ⟨i, hi, rfl⟩ := Option.map_eq_some_iff.1 (Option.mem_toList.1 hl)
    exact h.writes_other (fun ho => hn ⟨i, (Option.filter_eq_some_iff.1 hi).1, ho⟩) _ _

theorem Traced.unended_dispatch {s : State} (ht : Traced rules s) (hn : Numbered s) (keys : List Key)
    (rule : Option Nat) (instant : Nat) {o : Nat × Option Nat} (ho : o ∈ s.handled) :
    Unended of o.1 (Engine.dispatch rules keys rule instant s).journal ↔ Unended of o.1 s.journal := by
  obtain ⟨b, hb, hid, -⟩ := ht.presses o ho
  have ended : endedSince o.1 (Engine.dispatch rules keys rule instant s).journal = endedSince o.1 s.journal := by
    rw [endedSince_lines (dispatch_journal rules keys rule instant s) ⟨b, hb, hid⟩, dispatchLines_ended,
      List.append_nil]
  unfold Unended
  rw [ended, dispatch_beginnings]
  refine ⟨fun hu c hc => hu c (List.mem_append_left _ hc), fun hu c hc ha => ?_⟩
  rcases List.mem_append.1 hc with hc | hc
  · exact hu c hc ha
  · -- the new press has a number that no press had before
    rw [List.mem_singleton.1 hc]
    intro he
    obtain ⟨e, hem, heid⟩ := ht.ended _ (endedSince_subset _ _ he)
    have hle := hn.press_le e hem
    rw [heid] at hle
    exact Nat.not_succ_le_self s.serial hle

theorem Numbered.endedSince_dispatch {s : State} (hn : Numbered s) (keys : List Key) (rule : Option Nat)
    (instant : Nat) : endedSince (s.serial + 1) (Engine.dispatch rules keys rule instant s).journal = [] := by
  have fresh : ∀ b ∈ beginnings s.bare.journal, b.press ≠ s.serial + 1 := fun b hb => by
    rw [beginnings_bare] at hb
    have := hn.press_le b hb
    omega
  rw [← endedSince_bare]
  refine (congrArg _ (dispatch_journal rules keys rule instant s)).trans ?_
  rw [dispatchLines, endedSince_begins fresh rfl rfl]
  exact dispatchLines_ended keys rule instant s

theorem Lit.dispatch {s : State} (hs : Lit f of s) (h : Shared rules f of) (ht : Traced rules s) (hn : Numbered s)
    (keys : List Key) (rule : Option Nat) (instant : Nat) : Lit f of (dispatch rules keys rule instant s) := by
  obtain ⟨sets, leaves⟩ := h.written_dispatch keys rule instant s
  have flag : (Engine.dispatch rules keys rule instant s).flag f = _ := dispatch_flag keys rule instant s
  by_cases ha : Among of rule
  · rw [sets ha] at flag
    rw [Lit, flag]
    refine ⟨fun _ => ⟨(s.serial + 1, rule.filter fun i => rules[i]?.isSome), ?_, (h.among_filter rule).2 ha,
      fun b _ _ => ?_⟩, fun _ => rfl⟩
    · rw [dispatch_handled]
      exact List.mem_append_right _ (List.mem_singleton.2 rfl)
    · rw [hn.endedSince_dispatch]
      exact List.not_mem_nil
  · rw [leaves ha] at flag
    refine hs.keep flag (fun o ho => ?_) fun o ho => ht.unended_dispatch hn keys rule instant ho
    rw [dispatch_handled, List.mem_append, List.mem_singleton]
    refine or_iff_left fun he => ha ?_
    rw [he, h.among_filter] at ho
    exact ho

/-- A press of the rules clears the flag when it ends. -/
theorem Shared.written_end (h : Shared rules f of) {p : Press} {i : Nat} {m : Manipulator} (hm : rules[i]? = some m)
    (instant : Nat) :
    (of i → written rules f (endLines p i m instant) = some false) ∧
      (¬of i → written rules f (endLines p i m instant) = none) := by
  constructor
  · intro hi
    obtain ⟨n, hn, hr⟩ := h.raises i hi
    obtain rfl : m = n := Option.some.inj (hm.symm.trans hn)
    have release : (Incident.emitted p.id i .release).writes? rules f = some false :=
      (writes_emitted hm _).trans hr.release
    unfold endLines
    rw [hr.goesOn, Bool.and_false, if_neg Bool.false_ne_true, written_append, written_cons, release]
    rfl
  · intro hi
    refine written_eq_none fun l hl => ?_
    rcases endLines_mem hl with ⟨-, rfl⟩ | rfl
    · exact h.writes_other hi _ _
    · exact h.writes_other hi _ _

theorem Lit.endsOther {s t : State} (hs : Lit f of s) (h : Shared rules f of) (ht : Traced rules s) (hn : Numbered s)
    {p : Press} (hp : p ∈ s.presses) (hr : ¬Among of p.rule) {more : List Incident}
    (journal : t.bare.journal = s.bare.journal ++ more) (begun : beginnings more = [])
    (ended : endedPresses more = [p.id]) (flag : t.flag f = s.flag f)
    (handled : t.handled = s.handled.filter fun o => o.1 != p.id) : Lit f of t := by
  refine hs.keep flag (fun o ha => ?_) fun o ho => ?_
  · rw [handled, List.mem_filter, and_iff_left_iff_imp]
    intro ho
    refine bne_iff_ne.2 fun he => hr ?_
    obtain ⟨b, hb, hid, -⟩ := ht.presses o ho
    have same := h.among_beginning ht hn ho hb hid
    exact (h.among_beginning ht hn (State.mem_handled hp) hb (hid.trans he)).1 (same.2 ha)
  · obtain ⟨b, hb, hid, -⟩ := ht.presses o ho
    unfold Unended
    rw [beginnings_lines journal, begun, List.append_nil, endedSince_lines journal ⟨b, hb, hid⟩, ended]
    refine forall_congr' fun c => forall_congr' fun hc => forall_congr' fun ha => ?_
    rw [List.mem_append, List.mem_singleton, not_or, and_iff_left_iff_imp]
    exact fun _ he => hr ((h.among_beginning ht hn (State.mem_handled hp) hc he).1 ha)

/-- The end of a press of the rules. Every other one was in flight when it ended. -/
theorem Lit.endsOwn {s t : State} (h : Shared rules f of) (ht : Traced rules s) (hn : Numbered s) {p : Press}
    (hp : p ∈ s.presses) (hr : Among of p.rule) {more : List Incident}
    (journal : t.bare.journal = s.bare.journal ++ more) (begun : beginnings t.journal = beginnings s.journal)
    (ended : endedPresses more = [p.id]) (flag : t.flag f = false)
    (handled : t.handled = s.handled.filter fun o => o.1 != p.id) : Lit f of t := by
  rw [Lit, flag]
  refine ⟨fun hf => (Bool.false_ne_true hf).elim, ?_⟩
  rintro ⟨o, ho, -, hu⟩
  rw [handled] at ho
  obtain ⟨b, hb, hid, -⟩ := ht.presses o (List.mem_filter.1 ho).1
  obtain ⟨c, hc, hcid, -⟩ := ht.presses _ (State.mem_handled hp)
  refine (hu c (begun ▸ hc) ((h.among_beginning ht hn (State.mem_handled hp) hc hcid).2 hr) ?_).elim
  rw [endedSince_lines journal ⟨b, hb, hid⟩, ended, hcid]
  exact List.mem_append_right _ (List.mem_singleton.2 rfl)

theorem Lit.ends {s : State} (hs : Lit f of s) (h : Shared rules f of) (ht : Traced rules s) (hn : Numbered s)
    {k : Key} {p : Press} (hk : s.holder? k = some p) (last : (p.held.filter (· != k)).isEmpty = true)
    (instant : Nat) : Lit f of (release rules k instant s) := by
  have hp := (holder_mem hk).1
  have journal := release_journal rules k instant s
  have begun : beginnings (Engine.release rules k instant s).journal = beginnings s.journal :=
    release_beginnings k instant s
  have handled : (Engine.release rules k instant s).handled = _ := release_handled hk instant
  have flag : (Engine.release rules k instant s).flag f = _ := release_flag k instant s
  have ended : endedPresses (releaseLines rules k instant s) = [p.id] := by
    have he := (filterMap_lines releases_of_sending journal).symm.trans (release_ended hk instant)
    rw [if_pos last] at he
    exact List.append_cancel_left he
  have none_begins : beginnings (releaseLines rules k instant s) = [] :=
    List.append_cancel_left ((beginnings_lines journal).symm.trans (begun.trans (List.append_nil _).symm))
  rw [if_pos last] at handled
  simp only [releaseLines, hk, if_pos last] at flag
  rw [written_cons_quiet rfl] at flag
  obtain ⟨i, m, hr, hm⟩ | hr := rule_cases rules p.rule
  · rw [hr, Option.bind_some, hm, Option.map_some, Option.getD_some] at flag
    by_cases hi : of i
    · rw [(h.written_end hm instant).1 hi] at flag
      exact Lit.endsOwn h ht hn hp ⟨i, hr, hi⟩ journal begun ended flag handled
    · have other : ¬Among of p.rule := by
        rintro ⟨j, hj, hoj⟩
        exact hi (Option.some.inj (hr.symm.trans hj) ▸ hoj)
      rw [(h.written_end hm instant).2 hi] at flag
      exact hs.endsOther h ht hn hp other journal none_begins ended flag handled
  · have other : ¬Among of p.rule := by
      rintro ⟨j, hj, hoj⟩
      obtain ⟨m, hm, -⟩ := h.raises j hoj
      cases (hr j hj).symm.trans hm
    rw [bind_unmatched rules hr] at flag
    exact hs.endsOther h ht hn hp other journal none_begins ended flag handled

theorem Lit.release {s : State} (hs : Lit f of s) (h : Shared rules f of) (ht : Traced rules s) (hn : Numbered s)
    (k : Key) (instant : Nat) : Lit f of (release rules k instant s) := by
  cases hk : s.holder? k with
  | none =>
    rw [release_none rules hk]
    exact hs.note ht rfl rfl rfl
  | some p =>
    by_cases last : (p.held.filter (· != k)).isEmpty = true
    · exact hs.ends h ht hn hk last instant
    · have journal := release_journal rules k instant s
      have handled : (Engine.release rules k instant s).handled = _ := release_handled hk instant
      have flag : (Engine.release rules k instant s).flag f = _ := release_flag k instant s
      rw [if_neg last] at handled
      simp only [releaseLines, hk, if_neg last] at flag journal
      exact hs.lines ht journal (fun l hl => (List.not_mem_nil hl).elim) flag handled

theorem Lit.handOver {s : State} (hs : Lit f of s) (ht : Traced rules s) (b : Buffer) (i : Nat) :
    Lit f of (handOver rules b i s) :=
  have emptied : Traced rules { s with buffer := none } ∧ Lit f of { s with buffer := none } :=
    ⟨ht.congr rfl rfl rfl rfl, hs.congr rfl rfl rfl⟩
  (handOver_of (P := fun u => Traced rules u ∧ Lit f of u) emptied fun _ _ hu =>
    ⟨hu.1.note rfl rfl, hu.2.note hu.1 rfl rfl rfl⟩).2

/-! ## Every moment of every run -/

theorem Lit.move {x y : Session} (hs : Lit f of x.state) (h : Shared rules f of) (hx : Reachable rules x)
    (step : Move rules x y) : Lit f of y.state := by
  have ht := hx.traced
  cases step with
  | fire first => exact hs.fire h ht _ _
  | dispatch simultaneous free oldest once single => exact hs.dispatch h ht hx.numbered _ _ _
  | @holdBack k instant i free oldest found together =>
    have hn : Lit f of (x.state.note (.buffered k (openCandidates rules x.state k) x.state.flags)) :=
      hs.note ht rfl rfl rfl
    exact hn.congr rfl rfl rfl
  | join held oldest narrowed some_left => exact hs.congr rfl rfl rfl
  | close held due => exact hs.note ht rfl rfl rfl
  | @finish b i held idle first ready =>
    obtain ⟨-, serial, begun⟩ := handOver_frame rules b i x.state
    have numbered := hx.numbered.congr begun (Nat.le_of_eq serial.symm)
    simp only [finish_eq]
    exact (hs.handOver ht b i).dispatch h (ht.handOver b i) numbered _ _ _
  | @flush b held =>
    have hn : Lit f of (x.state.note (.flushed b.keys.length)) := hs.note ht rfl rfl rfl
    exact hn.congr rfl rfl rfl

theorem Reachable.lit {x : Session} (hx : Reachable rules x) (h : Shared rules f of) : Lit f of x.state := by
  induction hx with
  | start =>
    refine ⟨fun hf => (Bool.false_ne_true hf).elim, ?_⟩
    rintro ⟨o, ho, -⟩
    cases ho
  | move hx step ih => exact ih.move h hx step
  | @tick x hx _ instant ih =>
    have later : Traced rules { x.state with now := max x.state.now instant } ∧
        Lit f of { x.state with now := max x.state.now instant } :=
      ⟨hx.traced.congr rfl rfl rfl rfl, ih.congr rfl rfl rfl⟩
    exact (State.tick_of (P := fun u => Traced rules u ∧ Lit f of u) later fun _ _ _ hu =>
      ⟨hu.1.note rfl rfl, hu.2.note hu.1 rfl rfl rfl⟩).2
  | accept hx _ _ ih => exact ih.note hx.traced rfl rfl rfl
  | refuse hx _ _ ih => exact ih.note hx.traced rfl rfl rfl
  | release hx _ _ ih => exact ih.release h hx.traced hx.numbered _ _
  | take _ _ ih => exact ih.congr rfl rfl rfl

end

end KeyRules.Engine
