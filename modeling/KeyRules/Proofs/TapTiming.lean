import KeyRules.Proofs.Engine.LonePress
import KeyRules.Proofs.Engine.Precedence
import KeyRules.Proofs.TapFirst

/-!
# How long a tap-first key is held

A tap-first key that goes down and up alone is tapped or held, once. Simultaneous triggers on the key can hold it
back for the window of the first one. It is held if it stays down for its timeout and for that window. If it goes up
within the window, its press begins and ends at once, and a hold that is overdue by then is never sent.
-/

namespace KeyRules

open Engine

namespace Engine

section
variable {rules : List Manipulator} {i : Nat} {m : Manipulator} {limit : Millis} {s : State} {k : Key}
variable {t d last : Nat}

/-- Tap limit, hold threshold and delay are one time, and tap and hold are final. -/
structure TapFirstLike (m : Manipulator) (limit : Millis) : Prop extends Decisive m where
  tapLimit : m.tapLimit = some limit
  holdThreshold : m.holdThreshold = some limit
  delay : ∀ l, m.delayed = some l → l.delay = limit

theorem TapFirstLike.isTap (h : TapFirstLike m limit) (id : Nat) (keys : List Key) :
    isTap m (begun id keys i t m) (t + d) = decide (d < limit.toNat) := by
  unfold Engine.isTap begun
  rw [h.tapLimit, Nat.add_sub_cancel_left]
  rfl

/-! ## One press -/

theorem Lone.release_unsettled {id : Nat}
    (h : Lone s (begun id [k] i t m) [{ press := id, owners := [k], rule := i }]) (placed : rules[i]? = some m)
    (hm : TapFirstLike m limit) (late : t + d + limit.toNat ≤ last) (now : s.now ≤ last) :
    Sends i s (advanceTo rules last (Engine.release rules k (t + d) s)) [id] [] := by
  have later : (Engine.release rules k (t + d) s).now ≤ last := by
    rw [(release_frame rules k (t + d) s).2]
    exact now
  by_cases hd : d < limit.toNat
  · obtain ⟨idle, sends⟩ :=
      h.release_tapped rfl rfl placed ((hm.isTap id [k]).trans (decide_eq_true hd)) hm.tap_halts rfl
    rw [idle.advances later]
    exact sends.trans (sends_tick last)
  · obtain ⟨presses, pending, free, sends⟩ :=
      h.release_untapped rfl rfl placed ((hm.isTap id [k]).trans (decide_eq_false hd))
    obtain ⟨l, hl⟩ := Option.isSome_iff_exists.1 hm.delayed
    have runs : (Engine.release rules k (t + d) s).pending =
        [{ press := id, owners := [k], rule := i, deadline := some ⟨after (t + d) limit.toNat, s.serial + 1⟩ }] := by
      rw [pending]
      unfold startCountdown
      rw [hl]
      simp only [h.pending, List.map_cons, List.map_nil, begun, and_self, if_true, hm.delay l hl]
    exact sends.trans (countdown_taps presses runs free rfl rfl (Nat.le_trans (Nat.min_le_left _ _) late) later)

/-- The press of a tap-first key whose timers fire before it goes up. -/
theorem Lone.release_settled {id : Nat}
    (h : Lone s (begun id [k] i t m) [{ press := id, owners := [k], rule := i }]) (placed : rules[i]? = some m)
    (hm : TapFirstLike m limit) (late : t + d + limit.toNat ≤ last) (bounded : last ≤ lastInstant)
    (now : s.now ≤ last) :
    Sends i s (advanceTo rules last (Engine.release rules k (t + d) (settleBy rules (t + d) s)))
      (if limit.toNat ≤ d then [] else [id]) (if limit.toNat ≤ d then [id] else []) := by
  have timer : (begun id [k] i t m).holdTimer = some ⟨after t limit.toNat, id + 1⟩ := by
    unfold begun
    rw [hm.holdThreshold]
    rfl
  by_cases hd : limit.toNat ≤ d
  · rw [if_pos hd, if_pos hd]
    have onHold : halts (eventsOf rules i (·.onHold)) = true := by
      unfold eventsOf
      rw [placed]
      exact hm.hold_halts
    have due : after t limit.toNat ≤ t + d := Nat.le_trans (Nat.min_le_left _ _) (by omega)
    obtain ⟨held, sends⟩ := h.holds rfl rfl rfl onHold timer due
    have untapped : Engine.isTap m (begun id [k] i t m).fired (t + d) = false := rfl
    obtain ⟨presses, pending, free, sends'⟩ := held.release_untapped rfl rfl placed untapped
    have idle : Idle (Engine.release rules k (t + d) (settleBy rules (t + d) s)) := by
      refine ⟨presses, pending.trans ?_, free⟩
      unfold startCountdown
      cases m.delayed with
      | none => exact held.pending
      | some l =>
        simp only [held.pending]
        rfl
    rw [idle.advances (by rw [(release_frame rules _ _ _).2, settleBy, settle_now]; exact now)]
    exact (sends.trans sends').trans (sends_tick last)
  · rw [if_neg hd, if_neg hd]
    have early : t + d < after t limit.toNat := by
      unfold after
      omega
    rw [h.waits rfl timer early]
    exact h.release_unsettled placed hm late now

/-! ## A key held back -/

variable (rules) in
/-- How long a key that goes down can be held back: for the window of the first rule that reacts to it, if that is
a simultaneous one. -/
def heldBackFor (s : State) (k : Key) : Nat :=
  (((findRule rules s k true).bind fun j => rules[j]?.bind (·.trigger.window?)).map UInt32.toNat).getD 0

theorem findRule_some {simultaneous : Bool} (found : findRule rules s k simultaneous = some i) :
    ∃ m, rules[i]? = some m ∧ reactsTo s k simultaneous m = true := by
  obtain ⟨hi, reacts, -⟩ := List.findIdx?_eq_some_iff_getElem.1 found
  exact ⟨_, List.getElem?_eq_getElem hi, reacts⟩

theorem reactsTo_false :
    reactsTo s k false m = true ↔ reactsTo s k true m = true ∧ m.trigger.isTogether = false := by
  unfold reactsTo
  cases m.trigger <;> simp [Trigger.isTogether]

/-- Before the rule that a key finds alone there can be a simultaneous one. -/
theorem findRule_true (found : findRule rules s k false = some i) :
    findRule rules s k true = some i ∨
      ∃ j, findRule rules s k true = some j ∧ rules[j]?.any (·.trigger.isTogether) = true := by
  obtain ⟨m, hm, reacts⟩ := findRule_some found
  have reacts' := (reactsTo_false.1 reacts).1
  cases hf : findRule rules s k true with
  | none =>
    have hn := List.findIdx?_eq_none_iff.1 hf m (List.mem_of_getElem? hm)
    rw [reacts'] at hn
    cases hn
  | some j =>
    obtain ⟨e, he, hr⟩ := findRule_some hf
    cases ht : e.trigger.isTogether with
    | true =>
      refine .inr ⟨j, rfl, ?_⟩
      rw [he]
      exact ht
    | false =>
      have hle := findRule_first hf hm reacts'
      have hge := findRule_first found he (reactsTo_false.2 ⟨hr, ht⟩)
      exact .inl (congrArg some (Nat.le_antisymm hle hge))

/-- A key goes down alone for the first rule that wants it alone. -/
theorem press_found (found : findRule rules s k false = some i) (instant : Nat) :
    press rules k instant false s = dispatch rules [k] (some i) instant s := by
  unfold press
  rw [found]
  simp only
  rw [findRule_single rules found, if_neg Bool.false_ne_true]

theorem Idle.goesDown (h : Idle s) (later : s.now ≤ t) :
    keyDown rules k t s = press rules k t true ((s.tick t).note (.accepted k t)) := by
  have hi := h.tick t
  have up : (advanceTo rules t s).isDown k = false := by
    rw [h.advances later]
    refine State.isDown_false ?_ ?_
    · rw [State.heldLists, hi.presses]
      exact List.not_mem_nil
    · rw [State.buffered_of_none hi.free]
      exact List.not_mem_nil
  rw [keyDown_up up, h.advances later, accept_free hi.free, State.tick_now later]

/-- A key that is held back alone, and nothing in flight. -/
structure HeldBack (s : State) (k : Key) (t : Nat) (b : Buffer) : Prop where
  presses : s.presses = []
  pending : s.pending = []
  held : s.buffer = some b
  one : b.keys = [(k, t)]

theorem HeldBack.calm {b : Buffer} (h : HeldBack s k t b) : s.timers = [] := by
  rw [State.timers, h.presses, h.pending]
  rfl

theorem HeldBack.tick {b : Buffer} (h : HeldBack s k t b) (instant : Nat) : HeldBack (s.tick instant) k t b where
  presses := (s.tick_presses instant).trans h.presses
  pending := (s.tick_pending instant).trans h.pending
  held := (s.tick_buffer instant).trans h.held
  one := h.one

/-- The key that is let go begins its press. -/
theorem HeldBack.letsGo {b : Buffer} (h : HeldBack s k t b) (found : findRule rules s k false = some i)
    (placed : rules[i]? = some m) (delayed : m.delayed.isSome = true) :
    ∃ id, Lone (flush rules b s) (begun id [k] i t m) [{ press := id, owners := [k], rule := i }] ∧
      Sends i s (flush rules b s) [] [] ∧ (flush rules b s).now = s.now := by
  have idle : Idle ({ s with buffer := none }.note (.flushed 1)) := ⟨h.presses, h.pending, rfl⟩
  have hf : findRule rules ({ s with buffer := none }.note (.flushed 1)) k false = some i :=
    (findRule_flags rfl k false).trans found
  rw [flush_one h.calm h.one, press_found hf]
  obtain ⟨lone, sends⟩ := idle.begins placed delayed [k] t
  exact ⟨_, lone, (sends_line rfl rfl).trans sends, (dispatch_frame rules _ _ _ _).2⟩

/-- The key goes up before the window closes: it begins its press and ends it. -/
theorem HeldBack.goesUp {b : Buffer} (h : HeldBack s k t b) {instant : Nat} (later : s.now ≤ instant)
    (early : instant < b.deadline.instant) :
    keyUp rules k instant s = release rules k instant (flush rules b (s.tick instant)) := by
  have ht := h.tick instant
  have hn : (s.tick instant).now = instant := State.tick_now later
  have ha : advanceTo rules instant s = s.tick instant := advanceTo_quiet h.calm later fun c hc => by
    rw [h.held, Option.some.injEq] at hc
    exact hc ▸ early
  have hk : flushHolding rules k (s.tick instant) = flush rules b (s.tick instant) := by
    unfold flushHolding
    rw [ht.held]
    simp [h.one]
  unfold keyUp
  simp only [ha, hk, hn]

/-- A window that closes on the key lets it begin its press, and the timers go on. -/
theorem HeldBack.closes {b : Buffer} (h : HeldBack s k t b)
    (two : ∀ c ∈ b.candidates, 2 ≤ (triggerKeys rules c).length) (found : findRule rules s k false = some i)
    (placed : rules[i]? = some m) (delayed : m.delayed.isSome = true) {instant : Nat} (later : s.now ≤ instant)
    (due : b.deadline.instant ≤ instant) :
    ∃ u id, keyUp rules k instant s = release rules k instant (settleBy rules instant u) ∧
      Lone u (begun id [k] i t m) [{ press := id, owners := [k], rule := i }] ∧ Sends i s u [] [] ∧
      u.now = instant := by
  have ht := h.tick instant
  have hn : (s.tick instant).now = instant := State.tick_now later
  have hc : HeldBack ((s.tick instant).note (.windowClosed b.deadline)) k t b :=
    ⟨ht.presses, ht.pending, ht.held, ht.one⟩
  have hf : findRule rules ((s.tick instant).note (.windowClosed b.deadline)) k false = some i :=
    (findRule_flags (State.tick_flags s instant) k false).trans found
  obtain ⟨id, lone, sends, now⟩ := hc.letsGo hf placed delayed
  have ha : advanceTo rules instant s =
      settleBy rules instant (flush rules b ((s.tick instant).note (.windowClosed b.deadline))) := by
    unfold advanceTo fireDue
    simp only [ht.held]
    rw [hn, if_pos due, settle_of_timers_nil ht.calm]
    unfold closeWindow
    simp only
    rw [complete_one h.one two]
  refine ⟨_, id, ?_, lone, (sends_tick instant).trans ((sends_line rfl rfl).trans sends), now.trans hn⟩
  have free : (settleBy rules instant (flush rules b ((s.tick instant).note (.windowClosed b.deadline)))).buffer =
      none := (settle_buffer rules _ _).trans lone.free
  have hu : (settleBy rules instant (flush rules b ((s.tick instant).note (.windowClosed b.deadline)))).now = instant :=
    (settle_now rules _ _).trans (now.trans hn)
  unfold keyUp
  simp only [ha, hu]
  rw [flushHolding_free free]

theorem heldBackFor_single (found : findRule rules s k true = some i)
    (single : rules[i]?.any (·.trigger.isTogether) = false) : heldBackFor rules s k = 0 := by
  obtain ⟨m, placed, -⟩ := findRule_some found
  rw [placed, Option.any_some] at single
  unfold heldBackFor
  rw [found, Option.bind_some, placed, Option.bind_some]
  cases trigger : m.trigger with
  | single j anyModifiers => rfl
  | together ks order window =>
    rw [trigger] at single
    cases single

/-- A tap-first key that is dispatched at once is held if it stays down for its limit. -/
theorem Idle.tapFirst_dispatched (h : Idle s) (now : s.now = t) (found : findRule rules s k true = some i)
    (single : rules[i]?.any (·.trigger.isTogether) = false) (placed : rules[i]? = some m)
    (hm : TapFirstLike m limit) (late : t + d + limit.toNat ≤ last) (bounded : last ≤ lastInstant) :
    ∃ id, Sends i s (advanceTo rules last (keyUp rules k (t + d) (press rules k t true s)))
      (if limit.toNat ≤ d then [] else [id]) (if limit.toNat ≤ d then [id] else []) := by
  have hp : press rules k t true s = dispatch rules [k] (some i) t s := by
    unfold press
    rw [found]
    simp only [single, Bool.false_eq_true, if_false]
  obtain ⟨lone, sends⟩ := h.begins placed hm.delayed [k] t
  have hd : (dispatch rules [k] (some i) t s).now ≤ t + d := by
    have := (dispatch_frame rules [k] (some i) t s).2.trans now
    omega
  have hl : ((dispatch rules [k] (some i) t s).tick (t + d)).now ≤ last := by
    rw [State.tick_now hd]
    omega
  refine ⟨s.serial + 1, ?_⟩
  rw [hp, keyUp_free lone.free hd]
  apply sends.trans
  apply (sends_tick (t + d)).trans
  exact (lone.tick (t + d)).release_settled placed hm late bounded hl

variable (pairs : ∀ m ∈ rules, m.trigger.isTogether = true → 2 ≤ m.trigger.keys.length)
include pairs

/-- A key whose first rule is simultaneous is held back. -/
theorem Idle.heldBack (h : Idle s) {j : Nat} (found : findRule rules s k true = some j)
    (together : rules[j]?.any (·.trigger.isTogether) = true) (t : Nat) :
    ∃ b n, HeldBack (press rules k t true s) k t b ∧ b.deadline = ⟨after t (heldBackFor rules s k), n⟩ ∧
      (∀ c ∈ b.candidates, 2 ≤ (triggerKeys rules c).length) ∧ (press rules k t true s).flags = s.flags ∧
      (press rules k t true s).now = s.now ∧ Sends i s (press rules k t true s) [] [] := by
  have hp : press rules k t true s = startBuffer rules k t s := by
    unfold press
    rw [found]
    simp only [together, if_true]
  have hw : (do (← rules[← (openCandidates rules s k).head?]?).trigger.window? : Option Millis) =
      rules[j]?.bind (·.trigger.window?) := by
    rw [openCandidates_head found together]
    rfl
  rw [hp]
  refine ⟨⟨[(k, t)], openCandidates rules s k, ⟨after t (heldBackFor rules s k), s.serial + 1⟩⟩, s.serial + 1,
    ⟨h.presses, h.pending, ?_, rfl⟩, rfl, fun c hc => ?_, rfl, rfl, sends_line rfl rfl⟩
  · unfold startBuffer heldBackFor
    rw [found]
    simp only [hw]
    rfl
  · have ht := candidate_together hc
    obtain ⟨m, hm, -⟩ := mem_openCandidates.1 hc
    rw [hm, Option.any_some] at ht
    rw [triggerKeys_eq hm]
    exact pairs m (List.mem_of_getElem? hm) ht

/-- A tap-first key that is held back is held if it stays down for its limit and for as long as it is held back. -/
theorem Idle.tapFirst_heldBack (h : Idle s) (now : s.now = t) {j : Nat} (first : findRule rules s k true = some j)
    (together : rules[j]?.any (·.trigger.isTogether) = true) (found : findRule rules s k false = some i)
    (placed : rules[i]? = some m) (hm : TapFirstLike m limit) (positive : 0 < limit.toNat)
    (late : t + d + limit.toNat ≤ last) (bounded : last ≤ lastInstant) :
    ∃ id, Sends i s (advanceTo rules last (keyUp rules k (t + d) (press rules k t true s)))
      (if limit.toNat ≤ d ∧ heldBackFor rules s k ≤ d then [] else [id])
      (if limit.toNat ≤ d ∧ heldBackFor rules s k ≤ d then [id] else []) := by
  obtain ⟨b, n, back, deadline, two, kept, now', sends⟩ := h.heldBack (i := i) pairs first together t
  have found' := (findRule_flags kept k false).trans found
  have hd : (press rules k t true s).now ≤ t + d := by omega
  by_cases hb : heldBackFor rules s k ≤ d
  · have due : b.deadline.instant ≤ t + d := by
      rw [deadline]
      exact Nat.le_trans (Nat.min_le_left _ _) (Nat.add_le_add_left hb t)
    obtain ⟨u, id, hu, lone, begins, now''⟩ := back.closes two found' placed hm.delayed hd due
    refine ⟨id, ?_⟩
    rw [hu]
    simp only [hb, and_true]
    apply sends.trans
    apply begins.trans
    exact lone.release_settled placed hm late bounded (by omega)
  · have early : t + d < b.deadline.instant := by
      rw [deadline]
      show t + d < min (t + heldBackFor rules s k) lastInstant
      omega
    have tick := (findRule_flags (State.tick_flags (press rules k t true s) (t + d)) k false).trans found'
    obtain ⟨id, lone, begins, now''⟩ := (back.tick (t + d)).letsGo tick placed hm.delayed
    rw [State.tick_now hd] at now''
    refine ⟨id, ?_⟩
    rw [back.goesUp hd early, if_neg (fun hx => hb hx.2), if_neg (fun hx => hb hx.2)]
    apply sends.trans
    apply (sends_tick (t + d)).trans
    apply begins.trans
    exact lone.release_unsettled placed hm late (by omega)

/-- A tap-first key that goes down and up alone is held exactly if it stays down for its limit and for as long as it
can be held back. Else it is tapped. -/
theorem Idle.tapFirst (h : Idle s) (later : s.now ≤ t) (found : findRule rules s k false = some i)
    (placed : rules[i]? = some m) (hm : TapFirstLike m limit) (positive : 0 < limit.toNat)
    (late : t + d + limit.toNat ≤ last) (bounded : last ≤ lastInstant) :
    ∃ press, Sends i s (advanceTo rules last (keyUp rules k (t + d) (keyDown rules k t s)))
      (if limit.toNat ≤ d ∧ heldBackFor rules s k ≤ d then [] else [press])
      (if limit.toNat ≤ d ∧ heldBackFor rules s k ≤ d then [press] else []) := by
  have idle : Idle ((s.tick t).note (.accepted k t)) := (h.tick t).note _
  have now : ((s.tick t).note (.accepted k t)).now = t := State.tick_now later
  have sends : Sends i s ((s.tick t).note (.accepted k t)) [] [] := (sends_tick t).trans (sends_line rfl rfl)
  have flags : ∀ simultaneous, findRule rules ((s.tick t).note (.accepted k t)) k simultaneous =
      findRule rules s k simultaneous := findRule_flags (State.tick_flags s t) k
  have wait : heldBackFor rules ((s.tick t).note (.accepted k t)) k = heldBackFor rules s k := by
    rw [heldBackFor, flags, heldBackFor]
  rw [h.goesDown later, ← wait]
  rw [← flags] at found
  rcases findRule_true found with single | ⟨j, first, together⟩
  · have alone := findRule_single rules found
    obtain ⟨id, decides⟩ := idle.tapFirst_dispatched now single alone placed hm late bounded
    rw [heldBackFor_single single alone]
    simp only [Nat.zero_le, and_true]
    exact ⟨id, sends.trans decides⟩
  · obtain ⟨id, decides⟩ :=
      idle.tapFirst_heldBack pairs now first together found placed hm positive late bounded
    exact ⟨id, sends.trans decides⟩

end

end Engine

/-! ## Compiled bindings -/

theorem TapHold.tapFirstLike {b : TapHold} {f : Fragment} (compiled : b.compile = .ok f)
    (first : b.priority = .tapFirst) :
    ∃ limit : Millis, limit.toNat = b.timeout.toNat ∧ 0 < limit.toNat ∧ TapFirstLike b.compiled limit := by
  obtain ⟨limit, -, ht, -, -⟩ := b.compile_ok compiled
  obtain ⟨exact, positive, -⟩ := TimeSetting.check_ok ht
  have hc : b.compiled = b.tapFirst limit := by
    rw [TapHold.compiled, TapHold.manipulator, first, ← exact, UInt32.ofNat_toNat]
  have own : b.compiled ∈ f.manipulators := by
    rw [(b.compile_manipulators compiled).1]
    exact List.mem_singleton.2 rfl
  have final := b.decisive compiled first own
  rw [hc] at final ⊢
  refine ⟨limit, exact, by omega, { final with tapLimit := rfl, holdThreshold := rfl, delay := fun l hl => ?_ }⟩
  obtain rfl := Option.some.inj hl
  rfl

/-- With nothing in flight, a key whose first single-key rule is a tap-first binding goes down and up, and nothing else
happens for long enough. It is held, once, if it stayed down for the timeout of the binding and for as long as a
simultaneous trigger could hold it back. Else it is tapped, once. -/
theorem tapFirst_timing {r : RuleSet} (compiled : r.Compiled) {s : State} (presses : s.presses = [])
    (pending : s.pending = []) (free : s.buffer = none) {t : Nat} (later : s.now ≤ t) {k : Key} {i : Nat}
    (found : findRule r.manipulators s k false = some i) {b : TapHold} {f : Fragment} (binding : b.compile = .ok f)
    (first : b.priority = .tapFirst) (placed : r.manipulators[i]? = some b.compiled) {d last : Nat}
    (late : t + d + b.timeout.toNat ≤ last) (bounded : last ≤ lastInstant) :
    ∃ press, Sends i s
      (advanceTo r.manipulators last (keyUp r.manipulators k (t + d) (keyDown r.manipulators k t s)))
      (if b.timeout.toNat ≤ d ∧ heldBackFor r.manipulators s k ≤ d then [] else [press])
      (if b.timeout.toNat ≤ d ∧ heldBackFor r.manipulators s k ≤ d then [press] else []) := by
  obtain ⟨limit, exact, positive, hm⟩ := b.tapFirstLike binding first
  rw [← exact] at late ⊢
  have idle : Idle s := ⟨presses, pending, free⟩
  refine idle.tapFirst (fun m hm together => ?_) later found placed hm positive late bounded
  exact (compiled.manipulator m hm).two_keys together

def wideChord : Chord := ⟨[keyA, keyB], .key keyC [], 200, none⟩

def quickKey : TapHold := ⟨keyA, .key keyA [], .combination .meh, 50, .tapFirst, none, none⟩

def chordBeforeKey : RuleSet := ⟨[⟨"home row", [
  ⟨"chord " ++ wideChord.text, [wideChord.compiled], none⟩,
  ⟨"tap-hold " ++ quickKey.text, [quickKey.compiled], none⟩]⟩]⟩

theorem chordBeforeKey_compiled : chordBeforeKey.Compiled where
  assembled := rfl
  fragments := by
    intro g hg f hf
    obtain rfl := List.mem_singleton.1 hg
    simp only [List.mem_cons, List.not_mem_nil, or_false] at hf
    rcases hf with rfl | rfl
    · exact ⟨.chord wideChord, rfl⟩
    · exact ⟨.tapHold quickKey, rfl⟩

/-- The state after `a` was down for some time. -/
def heldAlone (d : Nat) : State :=
  advanceTo chordBeforeKey.manipulators 1000
    (keyUp chordBeforeKey.manipulators keyA d (keyDown chordBeforeKey.manipulators keyA 0 {}))

/-- After 100 ms the key is tapped, although its timeout is 50 ms. -/
theorem tapFirst_timing_chord :
    heldBackFor chordBeforeKey.manipulators {} keyA = 200 ∧ ∃ press, Sends 1 {} (heldAlone 100)
      (if 50 ≤ 100 ∧ heldBackFor chordBeforeKey.manipulators {} keyA ≤ 100 then [] else [press])
      (if 50 ≤ 100 ∧ heldBackFor chordBeforeKey.manipulators {} keyA ≤ 100 then [press] else []) := by
  have late : 0 + 100 + quickKey.timeout.toNat ≤ 1000 := by decide
  refine ⟨rfl, ?_⟩
  exact tapFirst_timing (t := 0) (d := 100) chordBeforeKey_compiled rfl rfl rfl (Nat.le_refl 0) rfl rfl rfl rfl late
    (by decide +kernel)

/-- So the timing of a tap-first key depends on other rules. -/
theorem tapFirst_timing_disturbed :
    ¬∀ (r : RuleSet) (s : State) (t : Nat) (k : Key) (i : Nat) (b : TapHold) (f : Fragment) (d last : Nat),
      r.Compiled → s.presses = [] → s.pending = [] → s.armed = [] → s.buffer = none → s.now ≤ t →
      findRule r.manipulators s k false = some i → b.compile = .ok f → b.priority = .tapFirst →
      r.manipulators[i]? = some b.compiled → t + d + b.timeout.toNat ≤ last →
      t + heldBackFor r.manipulators s k ≤ last → last ≤ lastInstant →
      ∃ press, Sends i s
        (advanceTo r.manipulators last (keyUp r.manipulators k (t + d) (keyDown r.manipulators k t s)))
        (if b.timeout.toNat ≤ d then [] else [press]) (if b.timeout.toNat ≤ d then [press] else []) := by
  intro h
  obtain ⟨press, hs⟩ := h chordBeforeKey {} 0 keyA 1 quickKey _ 100 1000 chordBeforeKey_compiled rfl rfl rfl rfl
    (Nat.le_refl 0) rfl rfl rfl rfl (by decide) (by decide +kernel) (by decide +kernel)
  have hl : (holds 1 (heldAlone 100).journal).length = 1 := by
    unfold heldAlone
    rw [hs.holds]
    rfl
  revert hl
  decide +kernel

end KeyRules
