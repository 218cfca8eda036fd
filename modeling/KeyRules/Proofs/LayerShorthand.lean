import KeyRules.Config.Basic
import KeyRules.Proofs.ModifierSpelling

/-!
# Mapped keys of a layer

A layer table may list keys that stand for themselves with modifiers added. It is read like the table that has a
binding for each of them, in front of its own ones: one list of modifiers, read once, does what the same list does in
every binding. Only a list of modifiers that stands for nothing, next to no mapped key at all, tells the two apart
(`map_keys_spelled_out`).
-/

namespace KeyRules.Config

def LayerTable.mappedBinding (t : LayerTable) (spelling : String) : BindingTable :=
  ⟨spelling, .key spelling t.mapModifiers⟩

def LayerTable.spelledOut (t : LayerTable) : LayerTable :=
  { t with mapKeys := [], mapModifiers := [], bindings := t.mapKeys.map t.mappedBinding ++ t.bindings }

namespace LayerTable

variable {t : LayerTable} {ms : List Modifier}

theorem mappedBinding_entry (read : Modifier.parseAll t.mapModifiers = .ok ms) (s : String) :
    (t.mappedBinding s).toEntry = (fun k => (k, Action.withModifiers k ms)) <$> Key.parse s := by
  have nodup := Modifier.parseAll_nodup read
  unfold BindingTable.toEntry mappedBinding ActionTable.toAction
  simp only [Action.parseWith_eq, read]
  cases Key.parse s with
  | error e => rfl
  | ok k => exact congrArg (fun a => Except.ok (k, a)) (Action.withModifiers_of_nodup nodup k).symm

theorem mappedBindings_entries (read : Modifier.parseAll t.mapModifiers = .ok ms) :
    (t.mapKeys.map t.mappedBinding).mapM BindingTable.toEntry =
      (List.map fun k => (k, Action.withModifiers k ms)) <$> Key.parseAll t.mapKeys := by
  have entry : BindingTable.toEntry ∘ t.mappedBinding =
      fun s => (fun k => (k, Action.withModifiers k ms)) <$> Key.parse s :=
    funext (mappedBinding_entry read)
  rw [List.mapM_map, entry, mapM_image, Key.parseAll]

/-- Where the modifiers are known, the tables do not differ in their errors either. -/
theorem toLayer_spelledOut (read : Modifier.parseAll t.mapModifiers = .ok ms) (defaults : Defaults) :
    t.spelledOut.toLayer defaults = t.toLayer defaults := by
  have entries : t.spelledOut.bindings.mapM BindingTable.toEntry = do
      let mapped ← (List.map fun k => (k, Action.withModifiers k ms)) <$> Key.parseAll t.mapKeys
      return mapped ++ (← t.bindings.mapM BindingTable.toEntry) := by
    rw [← mappedBindings_entries read]
    exact List.mapM_append
  have no_keys : Key.parseAll t.spelledOut.mapKeys = .ok [] := rfl
  have no_modifiers : Modifier.parseAll t.spelledOut.mapModifiers = .ok [] := rfl
  unfold toLayer
  refine bind_congr fun key => bind_congr fun flag => ?_
  rw [no_keys, no_modifiers, entries, read]
  cases Key.parseAll t.mapKeys with
  | error e => rfl
  | ok ks =>
    cases t.bindings.mapM BindingTable.toEntry with
    | error e => rfl
    | ok es => rfl

theorem toLayer_modifiers {defaults : Defaults} {l : Layer} (read : t.toLayer defaults = .ok l) :
    ∃ ms, Modifier.parseAll t.mapModifiers = .ok ms := by
  obtain ⟨key, -, read⟩ := bind_ok_iff.1 read
  obtain ⟨flag, -, read⟩ := bind_ok_iff.1 read
  obtain ⟨ms, known, -⟩ := bind_ok_iff.1 read
  exact ⟨ms, known⟩

theorem toLayer_ok_iff {defaults : Defaults} {l : Layer} :
    t.toLayer defaults = .ok l ↔
      (∃ ms, Modifier.parseAll t.mapModifiers = .ok ms) ∧ t.spelledOut.toLayer defaults = .ok l := by
  constructor
  · intro read
    obtain ⟨ms, known⟩ := toLayer_modifiers read
    exact ⟨⟨ms, known⟩, (toLayer_spelledOut known defaults).trans read⟩
  · rintro ⟨⟨ms, known⟩, read⟩
    exact (toLayer_spelledOut known defaults).symm.trans read

end LayerTable

/-- A layer table is read exactly if its modifiers are known and the table with its mapped keys spelled out is read,
into the same layer. So both compile to the same fragment or fail alike. -/
theorem map_keys_spelled_out (t : LayerTable) (defaults : Defaults) :
    (∀ l, t.toLayer defaults = .ok l ↔
      (∃ ms, Modifier.parseAll t.mapModifiers = .ok ms) ∧ t.spelledOut.toLayer defaults = .ok l) ∧
    ∀ l, t.toLayer defaults = .ok l →
      ((RuleTable.layer t.spelledOut).toBinding defaults >>= Binding.compile) =
        ((RuleTable.layer t).toBinding defaults >>= Binding.compile) := by
  refine ⟨fun l => LayerTable.toLayer_ok_iff, fun l read => ?_⟩
  have spelled := (LayerTable.toLayer_ok_iff.1 read).2
  simp only [RuleTable.toBinding, read, spelled]

/-- Arrows on a layer: a key twice, aliases, a run of symbols and modifiers that come again. -/
def arrows : LayerTable where
  key := "esc"
  flag := none
  mode := .simultaneous
  threshold := none
  mapKeys := ["H", "←", "h"]
  mapModifiers := ["⌘⌥", "Hyper", "opt"]
  bindings := [⟨";", .paste "x"⟩]

theorem map_keys_spelled_out_arrows :
    ∃ l, arrows.toLayer {} = .ok l ∧ arrows.spelledOut.toLayer {} = .ok l ∧
      l.bindings.map (·.1.name) = ["h", "left_arrow", "h", "semicolon"] ∧
      ((RuleTable.layer arrows.spelledOut).toBinding {} >>= Binding.compile) =
        ((RuleTable.layer arrows).toBinding {} >>= Binding.compile) := by
  have read : ∃ l, arrows.toLayer {} = .ok l ∧ l.bindings.map (·.1.name) = ["h", "left_arrow", "h", "semicolon"] :=
    ⟨_, rfl, by decide +kernel⟩
  obtain ⟨l, read, names⟩ := read
  obtain ⟨same, compiled⟩ := map_keys_spelled_out arrows {}
  exact ⟨l, read, ((same l).1 read).2, names, compiled l read⟩

end KeyRules.Config
