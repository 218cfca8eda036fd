/-!
# Passes that can fail

A pass over a list stops at the first item it fails on. It fails exactly if some item does after all before it have
passed (`foldlM_error_iff`, `forM_error_iff`).
-/

namespace KeyRules

section
variable {α β σ ε : Type}

theorem bind_ok_iff {x : Except ε α} {next : α → Except ε β} {b : β} :
    (x >>= next) = .ok b ↔ ∃ a, x = .ok a ∧ next a = .ok b := by
  cases x with
  | error e => exact ⟨fun h => (nomatch h), fun ⟨_, h, _⟩ => (nomatch h)⟩
  | ok a => exact ⟨fun h => ⟨a, rfl, h⟩, fun ⟨_, h, hb⟩ => Except.ok.inj h ▸ hb⟩

theorem bind_error_iff {x : Except ε α} {next : α → Except ε β} {e : ε} :
    (x >>= next) = .error e ↔ x = .error e ∨ ∃ a, x = .ok a ∧ next a = .error e := by
  cases x with
  | error first =>
    constructor
    · exact fun h => .inl (congrArg Except.error (Except.error.inj h))
    · rintro (h | ⟨a, h, -⟩)
      · exact congrArg Except.error (Except.error.inj h)
      · cases h
  | ok a =>
    constructor
    · exact fun h => .inr ⟨a, rfl, h⟩
    · rintro (h | ⟨b, h, failed⟩)
      · cases h
      · exact Except.ok.inj h ▸ failed

theorem foldlM_error_iff {f : σ → α → Except ε σ} {as : List α} {s : σ} {e : ε} :
    as.foldlM f s = .error e ↔
      ∃ before a after t, as = before ++ a :: after ∧ before.foldlM f s = .ok t ∧ f t a = .error e := by
  induction as generalizing s with
  | nil => simp [pure, Except.pure]
  | cons a as ih =>
    rw [List.foldlM_cons, bind_error_iff]
    constructor
    · rintro (here | ⟨next, passed, later⟩)
      · exact ⟨[], a, as, s, rfl, rfl, here⟩
      · obtain ⟨before, b, after, t, rfl, ran, failed⟩ := ih.1 later
        refine ⟨a :: before, b, after, t, rfl, ?_, failed⟩
        rw [List.foldlM_cons, bind_ok_iff]
        exact ⟨next, passed, ran⟩
    · rintro ⟨before, b, after, t, split, ran, failed⟩
      cases before with
      | nil =>
        cases ran
        exact .inl ((List.cons.inj split).1 ▸ failed)
      | cons c before =>
        obtain ⟨rfl, rest⟩ := List.cons.inj split
        rw [List.foldlM_cons, bind_ok_iff] at ran
        obtain ⟨next, passed, ran⟩ := ran
        exact .inr ⟨next, passed, ih.2 ⟨before, b, after, t, rest, ran, failed⟩⟩

theorem forM_eq_foldlM (f : α → Except ε Unit) (as : List α) : as.forM f = as.foldlM (fun _ a => f a) () := by
  induction as with
  | nil => rfl
  | cons a as ih =>
    show (f a >>= fun _ => as.forM f) = _
    rw [ih, List.foldlM_cons]

theorem forM_ok_iff {f : α → Except ε Unit} {as : List α} : as.forM f = .ok () ↔ ∀ a ∈ as, f a = .ok () := by
  induction as with
  | nil => exact ⟨fun _ _ ha => (List.not_mem_nil ha).elim, fun _ => rfl⟩
  | cons a as ih =>
    rw [List.forall_mem_cons, ← ih]
    show (f a >>= fun _ => as.forM f) = .ok () ↔ _
    rw [bind_ok_iff]
    exact ⟨fun ⟨_, h⟩ => h, fun h => ⟨(), h⟩⟩

theorem forM_error_iff {f : α → Except ε Unit} {as : List α} {e : ε} :
    as.forM f = .error e ↔
      ∃ before a after, as = before ++ a :: after ∧ (∀ b ∈ before, f b = .ok ()) ∧ f a = .error e := by
  rw [forM_eq_foldlM, foldlM_error_iff]
  simp only [← forM_ok_iff, forM_eq_foldlM]
  constructor
  · rintro ⟨before, a, after, ⟨⟩, h⟩
    exact ⟨before, a, after, h⟩
  · rintro ⟨before, a, after, h⟩
    exact ⟨before, a, after, (), h⟩

theorem map_ok_iff {f : α → Except ε β} {as : List α} :
    (∃ bs : List β, as.map f = bs.map .ok) ↔ ∀ a ∈ as, ∃ b, f a = .ok b := by
  induction as with
  | nil => exact ⟨fun _ _ ha => (List.not_mem_nil ha).elim, fun _ => ⟨[], rfl⟩⟩
  | cons a as ih =>
    rw [List.forall_mem_cons, ← ih]
    constructor
    · rintro ⟨_ | ⟨b, bs⟩, h⟩
      · cases h
      · obtain ⟨first, later⟩ := List.cons.inj h
        exact ⟨⟨b, first⟩, bs, later⟩
    · rintro ⟨⟨b, first⟩, bs, later⟩
      exact ⟨b :: bs, List.cons_eq_cons.2 ⟨first, later⟩⟩

/-- A pass whose results are each changed is the pass with all its results changed. -/
theorem mapM_image {γ : Type} (f : α → Except ε β) (change : β → γ) (as : List α) :
    as.mapM (fun a => change <$> f a) = List.map change <$> as.mapM f := by
  induction as with
  | nil => rfl
  | cons a as ih =>
    rw [List.mapM_cons, List.mapM_cons, ih]
    cases f a with
    | error e => rfl
    | ok b => cases as.mapM f <;> rfl

theorem mapM_ok {f : α → Except ε β} {as : List α} {bs : List β} (h : as.mapM f = .ok bs) :
    ∀ b ∈ bs, ∃ a ∈ as, f a = .ok b := by
  induction as generalizing bs with
  | nil =>
    obtain rfl := Except.ok.inj h
    exact fun b hb => (List.not_mem_nil hb).elim
  | cons a as ih =>
    rw [List.mapM_cons] at h
    obtain ⟨c, hc, h⟩ := bind_ok_iff.1 h
    obtain ⟨cs, hcs, h⟩ := bind_ok_iff.1 h
    obtain rfl := Except.ok.inj h
    intro b hb
    rcases List.mem_cons.1 hb with rfl | hb
    · exact ⟨a, List.mem_cons_self, hc⟩
    · obtain ⟨x, hx, hf⟩ := ih hcs b hb
      exact ⟨x, List.mem_cons_of_mem _ hx, hf⟩

end

/-- An item stands after others if the list goes on from it. -/
theorem concat_prefix_iff {α : Type} {as before : List α} {a : α} :
    before ++ [a] <+: as ↔ ∃ after, as = before ++ a :: after := by
  constructor
  · rintro ⟨after, rfl⟩
    exact ⟨after, by simp⟩
  · rintro ⟨after, rfl⟩
    exact ⟨after, by simp⟩

end KeyRules
