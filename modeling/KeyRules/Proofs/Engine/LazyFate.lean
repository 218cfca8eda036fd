import KeyRules.Engine.Run
import Mathlib.Data.List.Nodup

/-!
# What becomes of lazy keys

The journal tells of lazy keys in four kinds of steps (`LazyStep`): they are armed, applied, disarmed, or something
else happens beside them, and then no key that is no modifier goes down while some of them wait. Whatever such steps
are put together, lazy keys that were armed once have one of four fates (`LazySteps.fate`): they wait, they were sent,
they vanished unsent, or they were sent and lifted again.
-/

namespace KeyRules.Engine

namespace Incident

def output? : Incident → Option Output
  | sent o => some o
  | _ => none

/-- The press whose lazy keys a line is about. -/
def lazyPress? : Incident → Option Nat
  | armed press _ | applied press _ | disarmed press _ _ => some press
  | _ => none

/-- The press whose lazy keys start to wait. -/
def arms? : Incident → Option Nat
  | armed press _ => some press
  | _ => none

/-- A key goes down that is no modifier. -/
def sendsPlain : Incident → Bool
  | sent (.down k) => !k.isModifier
  | _ => false

end Incident

def downLines (ks : List Key) : List Incident := ks.map fun k => .sent (.down k)

def upLines (ks : List Key) : List Incident := ks.reverse.map fun k => .sent (.up k)

def armings (journal : List Incident) : List Nat := journal.filterMap Incident.arms?

theorem armings_append (journal more : List Incident) : armings (journal ++ more) = armings journal ++ armings more :=
  List.filterMap_append

/-- Lazy keys and the press that armed them. -/
def Armed.name (a : Armed) : Nat × List Key := (a.press, a.keys)

/-! ## Steps -/

/-- Lazy keys before and after some lines of the journal. -/
inductive LazyStep : List Armed → List Incident → List Armed → Prop where
  /-- The line is not about lazy keys. No key but a modifier goes down past those that wait. -/
  | aside {as : List Armed} {l : Incident} (plain : l.lazyPress? = none)
    (allowed : l.sendsPlain = true → ∀ a ∈ as, a.isSent = true) : LazyStep as [l] as
  | arm {as : List Armed} (id : Nat) {ks : List Key} (modifiers : ∀ k ∈ ks, k.isModifier = true) :
    LazyStep as [.armed id ks] (as ++ [{ press := id, keys := ks }])
  | apply (front back : List Armed) {a : Armed} (waits : a.isSent = false) :
    LazyStep (front ++ a :: back) (.applied a.press a.keys :: downLines a.keys)
      (front ++ { a with isSent := true } :: back)
  | disarm (front back : List Armed) (a : Armed) :
    LazyStep (front ++ a :: back) (.disarmed a.press a.keys a.isSent :: if a.isSent then upLines a.keys else [])
      (front ++ back)

inductive LazySteps : List Armed → List Incident → List Armed → Prop where
  | refl (as : List Armed) : LazySteps as [] as
  | tail {as bs cs : List Armed} {lines more : List Incident} (steps : LazySteps as lines bs)
    (step : LazyStep bs more cs) : LazySteps as (lines ++ more) cs

theorem LazySteps.trans {as bs cs : List Armed} {lines more : List Incident} (h : LazySteps as lines bs)
    (h' : LazySteps bs more cs) : LazySteps as (lines ++ more) cs := by
  induction h' with
  | refl =>
    rw [List.append_nil]
    exact h
  | tail _ step ih =>
    rw [← List.append_assoc]
    exact ih.tail step

theorem LazySteps.single {as bs : List Armed} {lines : List Incident} (h : LazyStep as lines bs) :
    LazySteps as lines bs := (LazySteps.refl as).tail h

/-! ## Fates -/

/-- The fate of lazy keys of a press, given what came after they were armed, and what is armed of the press. -/
inductive LazyFate (id : Nat) (ks : List Key) : List Incident → List Armed → Prop where
  /-- No key has needed them yet. -/
  | waits {after : List Incident} (unneeded : ∀ l ∈ after, l.sendsPlain = false)
    (untouched : ∀ l ∈ after, l.lazyPress? ≠ some id) :
    LazyFate id ks after [{ press := id, keys := ks }]
  /-- They went down in order, before any key that needs them. -/
  | sent {before after : List Incident} (unneeded : ∀ l ∈ before, l.sendsPlain = false)
    (untouched : ∀ l ∈ before ++ after, l.lazyPress? ≠ some id) :
    LazyFate id ks (before ++ .applied id ks :: downLines ks ++ after) [{ press := id, keys := ks, isSent := true }]
  /-- No key needed them, and they are gone. -/
  | vanished {before after : List Incident} (unneeded : ∀ l ∈ before, l.sendsPlain = false)
    (untouched : ∀ l ∈ before ++ after, l.lazyPress? ≠ some id) :
    LazyFate id ks (before ++ .disarmed id ks false :: after) []
  /-- They went down and up again. -/
  | lifted {before between after : List Incident} (unneeded : ∀ l ∈ before, l.sendsPlain = false)
    (untouched : ∀ l ∈ before ++ between ++ after, l.lazyPress? ≠ some id) :
    LazyFate id ks (before ++ .applied id ks :: downLines ks ++ between ++ .disarmed id ks true :: upLines ks ++ after)
      []

section
variable {id : Nat} {ks : List Key} {after more : List Incident} {es : List Armed}

/-- Lines about other things change nothing, if no key goes down that needs those that wait. -/
theorem LazyFate.extend (h : LazyFate id ks after es) (other : ∀ l ∈ more, l.lazyPress? ≠ some id)
    (allowed : ∀ l ∈ more, l.sendsPlain = true → ∀ a ∈ es, a.isSent = true) : LazyFate id ks (after ++ more) es := by
  have both : ∀ {lines : List Incident}, (∀ l ∈ lines, l.lazyPress? ≠ some id) →
      ∀ l ∈ lines ++ more, l.lazyPress? ≠ some id :=
    fun h l hl => (List.mem_append.1 hl).elim (h l) (other l)
  cases h with
  | waits unneeded untouched =>
    refine .waits (fun l hl => ?_) (both untouched)
    rcases List.mem_append.1 hl with hl | hl
    · exact unneeded l hl
    · by_contra plain
      have := allowed l hl (by simpa using plain) _ List.mem_cons_self
      cases this
  | sent unneeded untouched =>
    rw [List.append_assoc]
    exact .sent unneeded (by rw [← List.append_assoc]; exact both untouched)
  | vanished unneeded untouched =>
    rw [List.append_assoc, List.cons_append]
    exact .vanished unneeded (by rw [← List.append_assoc]; exact both untouched)
  | lifted unneeded untouched =>
    rw [List.append_assoc]
    exact .lifted unneeded (by rw [← List.append_assoc]; exact both untouched)

theorem LazyFate.apply {a : Armed} (h : LazyFate id ks after [a]) (waits : a.isSent = false) :
    LazyFate id ks (after ++ .applied a.press a.keys :: downLines a.keys) [{ a with isSent := true }] := by
  cases h with
  | waits unneeded untouched =>
    have went : LazyFate id ks (after ++ .applied id ks :: downLines ks ++ []) _ :=
      .sent unneeded (by rw [List.append_nil]; exact untouched)
    rwa [List.append_nil] at went
  | sent _ _ => cases waits

theorem LazyFate.disarm {a : Armed} (h : LazyFate id ks after [a]) :
    LazyFate id ks (after ++ .disarmed a.press a.keys a.isSent :: if a.isSent then upLines a.keys else []) [] := by
  cases h with
  | waits unneeded untouched =>
    have gone : LazyFate id ks (after ++ .disarmed id ks false :: []) [] :=
      .vanished unneeded (by rw [List.append_nil]; exact untouched)
    exact gone
  | sent unneeded untouched =>
    rename_i before after
    have went : LazyFate id ks (before ++ .applied id ks :: downLines ks ++ after ++
        .disarmed id ks true :: upLines ks ++ []) [] := .lifted unneeded (by rw [List.append_nil]; exact untouched)
    rwa [List.append_nil] at went

end

/-! ## Every lazy key -/

theorem append_split {j more before after : List Incident} {l : Incident} (h : j ++ more = before ++ l :: after) :
    (∃ rest, j = before ++ l :: rest ∧ after = rest ++ more) ∨
      ∃ front, before = j ++ front ∧ more = front ++ l :: after := by
  rcases List.append_eq_append_iff.1 h with ⟨front, hb, hm⟩ | ⟨back, hj, hc⟩
  · exact .inr ⟨front, hb, hm⟩
  · cases back with
    | nil => exact .inr ⟨[], by rw [List.append_nil, hj, List.append_nil], hc.symm⟩
    | cons x back =>
      obtain ⟨rfl, rfl⟩ := List.cons.inj hc
      exact .inl ⟨back, hj, rfl⟩

theorem armings_downLines (ks : List Key) : armings (downLines ks) = [] :=
  List.filterMap_eq_nil_iff.2 fun l hl => by
    obtain ⟨k, -, rfl⟩ := List.mem_map.1 hl
    rfl

theorem armings_upLines (ks : List Key) : armings (upLines ks) = [] :=
  List.filterMap_eq_nil_iff.2 fun l hl => by
    obtain ⟨k, -, rfl⟩ := List.mem_map.1 hl
    rfl

theorem filter_press {front back : List Armed} {a : Armed} (nodup : ((front ++ a :: back).map (·.press)).Nodup) :
    front.filter (·.press == a.press) = [] ∧ back.filter (·.press == a.press) = [] := by
  rw [List.map_append, List.map_cons, List.nodup_append, List.nodup_cons] at nodup
  obtain ⟨-, ⟨later, -⟩, earlier⟩ := nodup
  constructor
  · refine List.filter_eq_nil_iff.2 fun b hb he => ?_
    exact earlier b.press (List.mem_map_of_mem hb) a.press List.mem_cons_self (beq_iff_eq.1 he)
  · refine List.filter_eq_nil_iff.2 fun b hb he => later ?_
    exact List.mem_map.2 ⟨b, hb, beq_iff_eq.1 he⟩

/-- Lazy keys that are armed: they are modifiers, and each press stands among those that armed some. -/
structure LazyLedger (as : List Armed) (journal : List Incident) : Prop where
  sublist : (as.map (·.press)).Sublist (armings journal)
  modifiers : ∀ a ∈ as, ∀ k ∈ a.keys, k.isModifier = true

/-- Only the line that tells so arms lazy keys. -/
theorem LazyStep.arms {as bs : List Armed} {lines : List Incident} (step : LazyStep as lines bs) :
    (armings lines = [] ∧ (bs.map Armed.name).Sublist (as.map Armed.name)) ∨
      ∃ id ks, lines = [.armed id ks] ∧ bs = as ++ [{ press := id, keys := ks }] ∧ ∀ k ∈ ks, k.isModifier = true := by
  cases step with
  | aside plain allowed =>
    rename_i l
    refine .inl ⟨?_, .refl _⟩
    cases l <;> first | rfl | cases plain
  | arm id modifiers => exact .inr ⟨id, _, rfl, rfl, modifiers⟩
  | apply front back waits =>
    rename_i a
    refine .inl ⟨armings_downLines a.keys, ?_⟩
    rw [List.map_append, List.map_append]
    exact .refl _
  | disarm front back a =>
    refine .inl ⟨?_, ((List.Sublist.refl front).append (List.sublist_cons_self a back)).map _⟩
    cases a.isSent with
    | true => exact armings_upLines a.keys
    | false => rfl

theorem LazyStep.ledger {as bs : List Armed} {journal lines : List Incident} (h : LazyLedger as journal)
    (step : LazyStep as lines bs) : LazyLedger bs (journal ++ lines) := by
  obtain ⟨quiet, fewer⟩ | ⟨id, ks, rfl, rfl, modifiers⟩ := step.arms
  · refine ⟨?_, fun b hb => ?_⟩
    · rw [armings_append, quiet, List.append_nil]
      have presses := fewer.map Prod.fst
      rw [List.map_map, List.map_map] at presses
      exact presses.trans h.sublist
    · obtain ⟨a, ha, same⟩ := List.mem_map.1 (fewer.subset (List.mem_map_of_mem hb))
      have keys : a.keys = b.keys := congrArg Prod.snd same
      exact keys ▸ h.modifiers a ha
  · refine ⟨?_, fun a ha => ?_⟩
    · rw [armings_append, List.map_append]
      exact h.sublist.append (.refl _)
    · rcases List.mem_append.1 ha with ha | ha
      · exact h.modifiers a ha
      · rw [List.mem_singleton.1 ha]
        exact modifiers

theorem LazyStep.fate {as bs : List Armed} {journal lines after : List Incident} {id : Nat} {ks : List Key}
    (ledger : LazyLedger as journal) (nodup : (armings journal).Nodup)
    (h : LazyFate id ks after (as.filter (·.press == id)))
    (step : LazyStep as lines bs) (other : id ∉ armings lines) :
    LazyFate id ks (after ++ lines) (bs.filter (·.press == id)) := by
  have unique := nodup.sublist ledger.sublist
  cases step with
  | aside plain allowed =>
    refine h.extend ?_ ?_
    · intro l hl
      rw [List.mem_singleton.1 hl, plain]
      exact fun he => nomatch he
    · intro l hl sends a ha
      rw [List.mem_singleton.1 hl] at sends
      exact allowed sends a (List.mem_filter.1 ha).1
  | arm press modifiers =>
    have hne : press ≠ id := by
      rintro rfl
      exact other (List.mem_singleton.2 rfl)
    rw [List.filter_append, List.filter_cons_of_neg (by simpa using hne), List.filter_nil, List.append_nil]
    refine h.extend ?_ ?_
    · intro l hl he
      rw [List.mem_singleton.1 hl] at he
      exact hne (Option.some.inj he)
    · intro l hl sends
      rw [List.mem_singleton.1 hl] at sends
      cases sends
  | apply front back waits =>
    rename_i a
    by_cases own : a.press = id
    · subst own
      obtain ⟨hf, hb⟩ := filter_press unique
      rw [List.filter_append, List.filter_cons_of_pos (by simp), hf, hb] at h ⊢
      exact h.apply waits
    · rw [List.filter_append, List.filter_cons_of_neg (by simpa using own), ← List.filter_append] at h
      rw [List.filter_append, List.filter_cons_of_neg (by simpa using own), ← List.filter_append]
      refine h.extend ?_ ?_
      · intro l hl he
        rcases List.mem_cons.1 hl with rfl | hl
        · exact own (Option.some.inj he)
        · obtain ⟨k, -, rfl⟩ := List.mem_map.1 hl
          cases he
      · intro l hl sends
        rcases List.mem_cons.1 hl with rfl | hl
        · cases sends
        · obtain ⟨k, hk, rfl⟩ := List.mem_map.1 hl
          have modifier := ledger.modifiers a (List.mem_append_right _ List.mem_cons_self) k hk
          simp [Incident.sendsPlain, modifier] at sends
  | disarm front back a =>
    by_cases own : a.press = id
    · subst own
      obtain ⟨hf, hb⟩ := filter_press unique
      rw [List.filter_append, List.filter_cons_of_pos (by simp), hf, hb] at h
      rw [List.filter_append, hf, hb]
      exact h.disarm
    · rw [List.filter_append, List.filter_cons_of_neg (by simpa using own), ← List.filter_append] at h
      have lines_up : ∀ l ∈ (if a.isSent then upLines a.keys else []), ∃ k, l = .sent (.up k) := by
        intro l hl
        split at hl
        · obtain ⟨k, -, rfl⟩ := List.mem_map.1 hl
          exact ⟨k, rfl⟩
        · cases hl
      refine h.extend ?_ ?_
      · intro l hl he
        rcases List.mem_cons.1 hl with rfl | hl
        · exact own (Option.some.inj he)
        · obtain ⟨k, rfl⟩ := lines_up l hl
          cases he
      · intro l hl sends
        rcases List.mem_cons.1 hl with rfl | hl
        · cases sends
        · obtain ⟨k, rfl⟩ := lines_up l hl
          cases sends

/-- Where no press arms lazy keys twice, all that were ever armed have a fate. -/
theorem LazySteps.fate {as : List Armed} {journal : List Incident} (steps : LazySteps [] journal as)
    (nodup : (armings journal).Nodup) :
    LazyLedger as journal ∧ ∀ before id ks after, journal = before ++ .armed id ks :: after →
      LazyFate id ks after (as.filter (·.press == id)) := by
  induction steps with
  | refl =>
    refine ⟨⟨.refl _, fun a ha => nomatch ha⟩, fun before id ks after split => ?_⟩
    exact (List.append_ne_nil_of_right_ne_nil before (List.cons_ne_nil _ after) split.symm).elim
  | tail steps step ih =>
    rename_i bs cs lines more
    rw [armings_append] at nodup
    have earlier := (List.nodup_append.1 nodup).1
    have apart := (List.nodup_append.1 nodup).2.2
    obtain ⟨ledger, fates⟩ := ih earlier
    refine ⟨step.ledger ledger, fun before id ks after split => ?_⟩
    obtain ⟨rest, hl, rfl⟩ | ⟨front, rfl, hm⟩ := append_split split
    · have mem : id ∈ armings lines := by
        rw [hl, armings_append]
        exact List.mem_append_right _ List.mem_cons_self
      exact step.fate ledger earlier (fates _ _ _ _ hl) fun hid => apart _ mem _ hid rfl
    · obtain ⟨quiet, -⟩ | ⟨press, keys, rfl, rfl, -⟩ := step.arms
      · rw [hm, armings_append] at quiet
        cases (List.append_eq_nil_iff.1 quiet).2
      · obtain ⟨rfl, he⟩ | ⟨back, -, hb⟩ := List.cons_eq_append_iff.1 hm
        · obtain ⟨hl, rfl⟩ := List.cons.inj he
          obtain ⟨rfl, rfl⟩ := Incident.armed.inj hl
          have fresh : bs.filter (·.press == id) = [] := by
            refine List.filter_eq_nil_iff.2 fun b hb hp => ?_
            have mem := ledger.sublist.subset (List.mem_map_of_mem hb)
            rw [beq_iff_eq.1 hp] at mem
            exact apart _ mem _ List.mem_cons_self rfl
          rw [List.filter_append, fresh, List.filter_cons_of_pos (by simp)]
          exact .waits (fun l hl => nomatch hl) (fun l hl => nomatch hl)
        · exact (List.append_ne_nil_of_right_ne_nil back (List.cons_ne_nil _ after) hb.symm).elim

end KeyRules.Engine
