import KeyRules.Proofs.Engine.Unarmed

/-!
# Pairs of a double tap

A double tap that is the only rule pairs presses of its key by their gaps. The first press of a pair waits for the
second one; a press that waits for too long is left alone and sends the single tap (`double_tap_pairs`). Gaps are
measured from the release of a press to the next one going down, and a gap of the whole interval is too long.
-/

namespace KeyRules

open Engine

/-! ## What becomes of presses -/

/-- A press of a double-tap key pairs with the one before it, or it is left alone. -/
inductive TapOutcome where
  | pair
  | alone
  deriving DecidableEq, Repr

namespace DoubleTap

/-- When the press that waits for a second one went up, after one more press, which is given by the instants at which
its key goes down and up. A press that is early enough pairs with the one that waits, any other press waits itself. -/
def waits (interval : Nat) : Option Nat → Nat × Nat → Option Nat
  | none, p => some p.2
  | some u, p => if p.1 - u < interval then none else some p.2

/-- What becomes of presses in the end, after one that may wait. -/
def outcomes (interval : Nat) : Option Nat → List (Nat × Nat) → List TapOutcome
  | none, [] => []
  | some _, [] => [.alone]
  | none, p :: ps => outcomes interval (some p.2) ps
  | some u, p :: ps =>
    if p.1 - u < interval then .pair :: outcomes interval none ps else .alone :: outcomes interval (some p.2) ps

def sends (d : DoubleTap) : TapOutcome → List Output
  | .pair => d.action.pressed ++ d.action.lifted
  | .alone => d.singleTapInUse.tapped

/-- What the two events of a press send at once, after one that may wait. -/
def replies (d : DoubleTap) (interval : Nat) : Option Nat → Nat × Nat → List Output × List Output
  | none, _ => ([], [])
  | some u, p => if p.1 - u < interval then (d.action.pressed, d.action.lifted) else (d.singleTapInUse.tapped, [])

def taps (d : DoubleTap) (ps : List (Nat × Nat)) : List Input :=
  ps.flatMap fun p => [.down d.key p.1, .up d.key p.2]

end DoubleTap

/-! ## Between two presses -/

section
variable {d : DoubleTap} {interval : Millis} {s : State} {os : List Output} {t v : Nat}

/-- No key is down. The press that waits for a second one, if any, has a countdown that began when it went up. -/
def DoubleTap.Rests (d : DoubleTap) (interval : Millis) (s : State) : Option Nat → List Output → Prop
  | none, os => Unarmed s [] [] [] os
  | some u, os => ∃ id n, Unarmed s [d.flagInUse] []
    [{ press := id, owners := [d.key], rule := 1, deadline := some ⟨u + interval.toNat, n⟩ }] os

theorem DoubleTap.Rests.free {r : Option Nat} (h : d.Rests interval s r os) :
    s.buffer = none ∧ s.presses = [] ∧ s.output = os := by
  cases r with
  | none => exact ⟨Unarmed.free h, Unarmed.presses h, Unarmed.output h⟩
  | some u =>
    obtain ⟨id, n, h⟩ := h
    exact ⟨h.free, h.presses, h.output⟩

/-- As long as no press has waited for the interval, only the clock moves. -/
theorem DoubleTap.Rests.early {r : Option Nat} (h : d.Rests interval s r os) (later : s.now ≤ t)
    (soon : ∀ u, r = some u → t < u + interval.toNat) :
    advanceTo [d.second, d.first interval] t s = s.tick t ∧ d.Rests interval (s.tick t) r os := by
  rw [advanceTo_free h.free.1 later]
  cases r with
  | none =>
    have h : Unarmed s [] [] [] os := h
    exact ⟨settle_of_timers_nil (by simp [State.timers, h.presses, h.pending]) _, h.tick t⟩
  | some u =>
    obtain ⟨id, n, h⟩ := h
    have timer : (s.tick t).timers = [(⟨u + interval.toNat, n⟩,
        .countdown { press := id, owners := [d.key], rule := 1, deadline := some ⟨u + interval.toNat, n⟩ })] := by
      simp [State.timers, h.presses, h.pending]
    exact ⟨settle_early timer (decide_eq_false (Nat.not_le.2 (soon u rfl))), id, n, h.tick t⟩

theorem DoubleTap.Rests.late {u : Nat} (h : d.Rests interval s (some u) os) (later : s.now ≤ t)
    (due : u + interval.toNat ≤ t) :
    d.Rests interval (advanceTo [d.second, d.first interval] t s) none (os ++ d.singleTapInUse.tapped) := by
  obtain ⟨id, n, h⟩ := h
  have timer : (s.tick t).timers = [(⟨u + interval.toNat, n⟩,
      .countdown { press := id, owners := [d.key], rule := 1, deadline := some ⟨u + interval.toNat, n⟩ })] := by
    simp [State.timers, h.presses, h.pending]
  obtain ⟨w, fires, hw⟩ := ((h.tick t).note (.fired ⟨u + interval.toNat, n⟩)).fires
    [d.second, d.first interval] (u + interval.toNat)
  have cleared := hw.setFlag d.flagInUse false
  simp only [Bool.false_eq_true, if_false, List.filter_cons, bne_self_eq_false, List.filter_nil] at cleared
  rw [advanceTo_free h.free later, settleBy, settle_due timer (decide_eq_true due), fire, fires]
  exact cleared.taps d.singleTapInUse

/-! ## One press -/

theorem DoubleTap.finds_first (interval : Millis) (h : s.flags = []) :
    findRule [d.second, d.first interval] s d.key true = some 1 := by
  simp [findRule, List.findIdx?_cons, reactsTo, second, first, Trigger.ofKey, State.gatesOpen, Gate.isOpen,
    Gate.whenSet, Gate.whenClear, h]

theorem DoubleTap.finds_second (interval : Millis) (h : s.flags = [d.flagInUse]) :
    findRule [d.second, d.first interval] s d.key true = some 0 := by
  simp [findRule, List.findIdx?_cons, reactsTo, second, Trigger.ofKey, State.gatesOpen, Gate.isOpen,
    Gate.whenSet, h]

theorem goes_down {rules : List Manipulator} {k : Key} {i : Nat} (free : (advanceTo rules t s).buffer = none)
    (up : (advanceTo rules t s).presses = []) (later : s.now ≤ t)
    (found : findRule rules (advanceTo rules t s) k true = some i)
    (single : rules[i]?.any (·.trigger.isTogether) = false) :
    keyDown rules k t s = dispatch rules [k] (some i) t ((advanceTo rules t s).note (.accepted k t)) := by
  have unheld : (advanceTo rules t s).isDown k = false := by simp [State.isDown, up, free]
  have now : (advanceTo rules t s).now = t := (advanceTo_clock t s).trans (Nat.max_eq_right later)
  have found' : findRule rules ((advanceTo rules t s).note (.accepted k t)) k true = some i := found
  rw [keyDown_up unheld, accept_free free, now]
  unfold press
  simp only [found', single, Bool.false_eq_true, if_false]

theorem dispatched_now {rules : List Manipulator} {keys : List Key} {rule : Option Nat} {instant : Nat} {l : Incident}
    (later : s.now ≤ t) : (dispatch rules keys rule instant ((advanceTo rules t s).note l)).now = t :=
  (dispatch_frame _ _ _ _ _).2.trans ((advanceTo_clock t s).trans (Nat.max_eq_right later))

theorem goes_up {rules : List Manipulator} {k : Key} {fs : List Flag} {p : Press} {ds : List Pending}
    (h : Unarmed s fs [p] ds os) (untimed : p.holdTimer = none) (rest : ∀ c ∈ ds, c.deadline = none)
    (later : s.now ≤ v) : keyUp rules k v s = release rules k v (s.tick v) ∧ (keyUp rules k v s).now = v := by
  have calm : (s.tick v).timers = [] := by
    have running : ds.filterMap (fun c => c.deadline.map (·, Timer.countdown c)) = [] :=
      List.filterMap_eq_nil_iff.2 fun c hc => by rw [rest c hc]; rfl
    simp [State.timers, h.presses, h.pending, untimed, running]
  rw [keyUp_free h.free later, settleBy, settle_of_timers_nil calm]
  exact ⟨rfl, (release_frame rules k v _).2.trans (State.tick_now later)⟩

/-- A press while no other one waits: nothing is sent, and it waits itself. -/
theorem DoubleTap.Rests.first (h : d.Rests interval (advanceTo [d.second, d.first interval] t s) none os)
    (later : s.now ≤ t) (ordered : t ≤ v) (unsaturated : v + interval.toNat ≤ lastInstant) :
    (keyDown [d.second, d.first interval] d.key t s).output = os ∧
      d.Rests interval (keyUp [d.second, d.first interval] d.key v
        (keyDown [d.second, d.first interval] d.key t s)) (some v) os ∧
      (keyUp [d.second, d.first interval] d.key v (keyDown [d.second, d.first interval] d.key t s)).now = v := by
  have hu : Unarmed (advanceTo [d.second, d.first interval] t s) [] [] [] os := h
  have placed : [d.second, d.first interval][1]? = some (d.first interval) := rfl
  rw [goes_down hu.free hu.presses later (d.finds_first interval hu.flags) rfl]
  obtain ⟨u, id, hd, begins⟩ := (hu.note (.accepted d.key t)).begins (by simp) placed t
  have down : Unarmed (u.emit id 1 .press (some id) (d.first interval).onPress) [d.flagInUse]
      [begun id [d.key] 1 t (d.first interval)] [{ press := id, owners := [d.key], rule := 1 }] os :=
    (begins.note _).setFlag d.flagInUse true
  rw [← hd] at down
  obtain ⟨hup, now⟩ := goes_up down rfl (by simp) ((dispatched_now later).symm ▸ ordered)
  refine ⟨down.output, ?_, now⟩
  obtain ⟨w, hw, gone⟩ := (down.tick v).letsGo (k := d.key) rfl rfl placed rfl rfl v
  rw [hup, hw]
  have started : after v interval.toNat = v + interval.toNat := Nat.min_eq_left unsaturated
  refine ⟨id, w.serial + 1, gone.flags, gone.presses, ?_, ?_, gone.armed, gone.free⟩
  · show w.pending.map _ = _
    simp [gone.pending, begun, started]
  · exact gone.output.trans (List.append_nil os)

/-- A press while another one waits makes a pair with it: it holds the action. -/
theorem DoubleTap.Rests.second {u : Nat}
    (h : d.Rests interval (advanceTo [d.second, d.first interval] t s) (some u) os) (later : s.now ≤ t)
    (ordered : t ≤ v) :
    (keyDown [d.second, d.first interval] d.key t s).output = os ++ d.action.pressed ∧
      d.Rests interval (keyUp [d.second, d.first interval] d.key v
        (keyDown [d.second, d.first interval] d.key t s)) none (os ++ d.action.pressed ++ d.action.lifted) ∧
      (keyUp [d.second, d.first interval] d.key v (keyDown [d.second, d.first interval] d.key t s)).now = v := by
  obtain ⟨waiting, n, hu⟩ := h
  have placed : [d.second, d.first interval][0]? = some d.second := rfl
  rw [goes_down hu.free hu.presses later (d.finds_second interval hu.flags) rfl]
  obtain ⟨w, id, hd, begins⟩ := (hu.note (.accepted d.key t)).begins (k := d.key) (by simp) placed t
  have cleared := (begins.note (.emitted id 0 .press)).setFlag d.flagInUse false
  simp only [Bool.false_eq_true, if_false, List.filter_cons, bne_self_eq_false, List.filter_nil] at cleared
  have down : Unarmed (w.emit id 0 .press (some id) d.second.onPress) []
      [{ begun id [d.key] 0 t d.second with outputs := d.action.keys }] [] (os ++ d.action.pressed) := by
    have carried := cleared.carriesOut id d.action
    simp only [List.map_cons, List.map_nil, begun, if_true, List.nil_append] at carried
    exact carried
  rw [← hd] at down
  obtain ⟨hup, now⟩ := goes_up down rfl (by simp) ((dispatched_now later).symm ▸ ordered)
  refine ⟨down.output, ?_, now⟩
  obtain ⟨w', hw, gone⟩ := (down.tick v).letsGo (k := d.key) rfl rfl placed rfl rfl v
  rw [hup, hw]
  exact gone

/-! ## Many presses -/

/-- The engine rests, and these presses come next, in order of time. -/
structure DoubleTap.Expects (d : DoubleTap) (interval : Millis) (s : State) (r : Option Nat) (os : List Output)
    (ps : List (Nat × Nat)) : Prop where
  rests : d.Rests interval s r os
  past : ∀ u, r = some u → u ≤ s.now
  ordered : (s.now :: ps.flatMap fun p => [p.1, p.2]).IsChain (· ≤ ·)
  unsaturated : ∀ p ∈ ps, p.2 + interval.toNat ≤ lastInstant

theorem DoubleTap.Expects.press {r : Option Nat} {p : Nat × Nat} {ps : List (Nat × Nat)}
    (h : d.Expects interval s r os (p :: ps)) :
    (keyDown [d.second, d.first interval] d.key p.1 s).output = os ++ (d.replies interval.toNat r p).1 ∧
      d.Expects interval (keyUp [d.second, d.first interval] d.key p.2
          (keyDown [d.second, d.first interval] d.key p.1 s))
        (waits interval.toNat r p) (os ++ (d.replies interval.toNat r p).1 ++ (d.replies interval.toNat r p).2) ps ∧
      (keyUp [d.second, d.first interval] d.key p.2 (keyDown [d.second, d.first interval] d.key p.1 s)).now = p.2 := by
  have chain := h.ordered
  simp only [List.flatMap_cons, List.cons_append, List.nil_append, List.isChain_cons_cons] at chain
  obtain ⟨later, ordered, rest⟩ := chain
  have room := h.unsaturated p List.mem_cons_self
  have rooms : ∀ q ∈ ps, q.2 + interval.toNat ≤ lastInstant := fun q hq => h.unsaturated q (List.mem_cons_of_mem _ hq)
  have waits_next : ∀ {u : State} {os' : List Output}, d.Rests interval u (some p.2) os' → u.now = p.2 →
      d.Expects interval u (some p.2) os' ps := by
    intro u os' hr now
    refine ⟨hr, fun w hw => ?_, now.symm ▸ rest, rooms⟩
    obtain rfl := Option.some.inj hw
    exact Nat.le_of_eq now.symm
  cases r with
  | none =>
    obtain ⟨advanced, rests⟩ := h.rests.early (t := p.1) later fun u hu => by cases hu
    obtain ⟨down, up, now⟩ := (advanced ▸ rests).first later ordered room
    simp only [replies, waits, List.append_nil]
    exact ⟨down, waits_next up now, now⟩
  | some u =>
    have hu := h.past u rfl
    by_cases soon : p.1 - u < interval.toNat
    · obtain ⟨advanced, rests⟩ := h.rests.early (t := p.1) later fun w hw => by
        obtain rfl := Option.some.inj hw
        omega
      obtain ⟨down, up, now⟩ := (advanced ▸ rests).second later ordered
      simp only [replies, waits, if_pos soon]
      exact ⟨down, ⟨up, (fun w hw => nomatch hw), now.symm ▸ rest, rooms⟩, now⟩
    · have rests := h.rests.late (t := p.1) later (by omega)
      obtain ⟨down, up, now⟩ := rests.first later ordered room
      simp only [replies, waits, if_neg soon, List.append_nil]
      exact ⟨down, waits_next up now, now⟩

/-- A run of presses sends what becomes of them, but for the one that waits at the end. -/
theorem DoubleTap.Expects.presses {r : Option Nat} {ps qs : List (Nat × Nat)}
    (h : d.Expects interval s r os (ps ++ qs)) :
    ∃ os', d.Expects interval ((d.taps ps).foldl (step [d.second, d.first interval]) s)
        (ps.foldl (waits interval.toNat) r) os' qs ∧
      os' ++ (outcomes interval.toNat (ps.foldl (waits interval.toNat) r) []).flatMap d.sends =
        os ++ (outcomes interval.toNat r ps).flatMap d.sends ∧
      ∀ t, s.now ≤ t → (∀ p ∈ ps, p.2 ≤ t) → ((d.taps ps).foldl (step [d.second, d.first interval]) s).now ≤ t := by
  induction ps generalizing s r os with
  | nil => exact ⟨os, h, rfl, fun t ht _ => ht⟩
  | cons p ps ih =>
    obtain ⟨-, next, now⟩ := h.press
    obtain ⟨os', hn, sent, clock⟩ := ih next
    refine ⟨os', hn, sent.trans ?_, fun t _ ht => clock t (now.symm ▸ ht p List.mem_cons_self) fun q hq =>
      ht q (List.mem_cons_of_mem _ hq)⟩
    cases r with
    | none => simp [replies, waits, outcomes]
    | some u =>
      by_cases soon : p.1 - u < interval.toNat
      · simp [replies, waits, outcomes, soon, sends]
      · simp [replies, waits, outcomes, soon, sends]

/-- After the last press and the interval nothing waits any more. -/
theorem DoubleTap.Rests.over {r : Option Nat} (h : d.Rests interval s r os) (later : s.now ≤ t)
    (due : ∀ u, r = some u → u + interval.toNat ≤ t) :
    d.Rests interval (advanceTo [d.second, d.first interval] t s) none
      (os ++ (outcomes interval.toNat r []).flatMap d.sends) := by
  cases r with
  | none =>
    obtain ⟨advanced, rests⟩ := h.early later fun u hu => by cases hu
    rw [advanced]
    simpa [outcomes] using rests
  | some u =>
    have rests := h.late later (due u rfl)
    simpa [outcomes, sends] using rests

theorem DoubleTap.waits_mem {n u : Nat} {r : Option Nat} {ps : List (Nat × Nat)}
    (h : ps.foldl (waits n) r = some u) : r = some u ∨ ∃ p ∈ ps, p.2 = u := by
  induction ps generalizing r with
  | nil => exact .inl h
  | cons p ps ih =>
    rcases ih h with hw | ⟨q, hq, hu⟩
    · refine .inr ⟨p, List.mem_cons_self, ?_⟩
      unfold waits at hw
      split at hw
      · exact Option.some.inj hw
      · split at hw
        · cases hw
        · exact Option.some.inj hw
    · exact .inr ⟨q, List.mem_cons_of_mem _ hq, hu⟩

end

/-- A double tap that is the only rule pairs the presses of its key exactly by their gaps. A press pairs with the one
before it if that one waits, so is not itself the second of a pair, and went up less than the interval before. The pair
sends the action, down with the second press and up with its release. A press that no other one pairs with sends the
single tap. In the end nothing is remembered. -/
theorem double_tap_pairs {r : RuleSet} {d : DoubleTap} {f : Fragment} (compiled : d.compile = .ok f)
    (only : r.groups.flatMap (·.fragments) = [f]) {ps : List (Nat × Nat)}
    (ordered : (ps.flatMap fun p => [p.1, p.2]).IsChain (· ≤ ·))
    (unsaturated : ∀ p ∈ ps, p.2 + d.interval.toNat ≤ lastInstant) {last : Nat}
    (past : ∀ p ∈ ps, p.2 + d.interval.toNat ≤ last) :
    (run r.manipulators (d.taps ps ++ [.advance last])).output =
        (DoubleTap.outcomes d.interval.toNat none ps).flatMap d.sends ∧
      (run r.manipulators (d.taps ps ++ [.advance last])).flag d.flagInUse = false ∧
      ∀ before p after, ps = before ++ p :: after →
        (run r.manipulators (d.taps before ++ [.down d.key p.1])).output =
            (run r.manipulators (d.taps before)).output ++
              (d.replies d.interval.toNat (before.foldl (DoubleTap.waits d.interval.toNat) none) p).1 ∧
          (run r.manipulators (d.taps before ++ [.down d.key p.1, .up d.key p.2])).output =
            (run r.manipulators (d.taps before ++ [.down d.key p.1])).output ++
              (d.replies d.interval.toNat (before.foldl (DoubleTap.waits d.interval.toNat) none) p).2 := by
  obtain ⟨interval, rfl, checked⟩ := d.compile_ok compiled
  obtain ⟨hn, -, -⟩ := TimeSetting.check_ok checked
  have rules : r.manipulators = [d.second, d.first interval] := by
    rw [RuleSet.manipulators_eq, only]
    rfl
  rw [rules, ← hn]
  rw [← hn] at unsaturated past
  have starts : d.Expects interval {} none [] ps := by
    refine ⟨⟨rfl, rfl, rfl, rfl, rfl, rfl⟩, (fun u hu => nomatch hu), ?_, unsaturated⟩
    cases ps with
    | nil => exact .singleton 0
    | cons p ps => exact List.isChain_cons_cons.2 ⟨Nat.zero_le _, ordered⟩
  have ends : Unarmed (run [d.second, d.first interval] (d.taps ps ++ [.advance last])) [] [] []
      ((DoubleTap.outcomes interval.toNat none ps).flatMap d.sends) := by
    have whole : d.Expects interval {} none [] (ps ++ []) := by
      rw [List.append_nil]
      exact starts
    obtain ⟨os, he, sent, clock⟩ := whole.presses
    have soon : ∀ p ∈ ps, p.2 ≤ last := fun p hp => Nat.le_of_add_right_le (past p hp)
    have due : ∀ u, ps.foldl (DoubleTap.waits interval.toNat) none = some u → u + interval.toNat ≤ last := by
      intro u hu
      obtain hu | ⟨p, hp, rfl⟩ := DoubleTap.waits_mem hu
      · cases hu
      · exact past p hp
    have rested := he.rests.over (clock last (Nat.zero_le _) soon) due
    rw [sent] at rested
    rw [run_append]
    exact rested
  refine ⟨ends.output, ?_, ?_⟩
  · unfold State.flag
    rw [ends.flags]
    rfl
  · rintro before p after rfl
    obtain ⟨os, hb, -, -⟩ := starts.presses
    obtain ⟨down, up, -⟩ := hb.press
    have rested := hb.rests.free.2.2
    simp only [run, List.foldl_append]
    exact ⟨down.trans (congrArg (· ++ _) rested.symm), up.rests.free.2.2.trans (congrArg (· ++ _) down.symm)⟩

def pastedTap : DoubleTap := ⟨keyA, 200, .combination .meh, some (.paste "a"), none⟩

def pastedFragment : Fragment :=
  ⟨"double-tap " ++ pastedTap.text, [pastedTap.second, pastedTap.first 200], some pastedTap.flagInUse⟩

def pastedSet : RuleSet := ⟨[⟨"taps", [pastedFragment]⟩]⟩

/-- Three quick presses, the first two of which make a pair. The fourth comes exactly the interval after the third and
makes a pair with the fifth. -/
def pastedPresses : List (Nat × Nat) := [(0, 10), (100, 110), (150, 160), (360, 370), (569, 600)]

/-- So only the third press types its text. -/
theorem double_tap_pairs_pasted :
    pastedTap.compile = .ok pastedFragment ∧
    DoubleTap.outcomes 200 none pastedPresses = [.pair, .alone, .pair] ∧
    (run pastedSet.manipulators (pastedTap.taps pastedPresses ++ [.advance 800])).output =
      pastedTap.sends .pair ++ [.paste "a"] ++ pastedTap.sends .pair ∧
    (run pastedSet.manipulators (pastedTap.taps pastedPresses ++ [.advance 800])).flag pastedTap.flagInUse = false := by
  have compiled : pastedTap.compile = .ok pastedFragment := by rfl
  have only : pastedSet.groups.flatMap (·.fragments) = [pastedFragment] := by rfl
  have ordered : (pastedPresses.flatMap fun p => [p.1, p.2]).IsChain (· ≤ ·) := by decide
  have unsaturated : ∀ p ∈ pastedPresses, p.2 + pastedTap.interval.toNat ≤ lastInstant := by decide
  have past : ∀ p ∈ pastedPresses, p.2 + pastedTap.interval.toNat ≤ 800 := by decide
  have paired := double_tap_pairs compiled only ordered unsaturated past
  exact ⟨compiled, rfl, paired.1, paired.2.1⟩

end KeyRules
