import KeyRules.Action
import KeyRules.Proofs.Passes
import Mathlib.Data.List.Induction
import Mathlib.Data.List.Nodup

/-!
# Spellings of modifiers

A list of spellings is read into the modifiers of all of them, each at its first occurrence, and the first spelling that
stands for nothing is the error. An action reads its modifiers in a loop of its own to the same end. What one spelling
may be is a grammar with four alternatives (`Modifier.Spelled`); everything together is `modifiers_read`.
-/

namespace KeyRules

namespace Modifier

/-! ## Lists without repeats -/

theorem distinct_append (ms more : List Modifier) : distinct (ms ++ more) = more.foldl addNew (distinct ms) :=
  List.foldl_append

theorem distinct_concat (ms : List Modifier) (m : Modifier) : distinct (ms ++ [m]) = addNew (distinct ms) m :=
  distinct_append ms [m]

theorem distinct_eq_eraseDups (ms : List Modifier) : distinct ms = ms.eraseDups := by
  induction ms using List.reverseRecOn with
  | nil => rfl
  | append_singleton ms m ih =>
    rw [distinct_concat, ih, List.eraseDups_append, addNew]
    by_cases seen : m ∈ ms
    · rw [if_pos (List.mem_eraseDups.2 seen)]
      simp [List.removeAll, seen]
    · have fresh : [m].removeAll ms = [m] := by simp [List.removeAll, seen]
      rw [if_neg (mt List.mem_eraseDups.1 seen), fresh]
      rfl

theorem addNew_nodup {ms : List Modifier} (h : ms.Nodup) (m : Modifier) : (addNew ms m).Nodup := by
  unfold addNew
  split
  · exact h
  · rename_i fresh
    refine List.nodup_append.2 ⟨h, List.nodup_singleton m, fun a ha b hb same => ?_⟩
    rw [List.mem_singleton.1 hb] at same
    exact fresh (same ▸ ha)

theorem distinct_nodup (ms : List Modifier) : (distinct ms).Nodup := by
  induction ms using List.reverseRecOn with
  | nil => exact List.nodup_nil
  | append_singleton ms m ih =>
    rw [distinct_concat]
    exact addNew_nodup ih m

theorem distinct_of_nodup {ms : List Modifier} (h : ms.Nodup) : distinct ms = ms := by
  induction ms using List.reverseRecOn with
  | nil => rfl
  | append_singleton ms m ih =>
    obtain ⟨before, -, apart⟩ := List.nodup_append.1 h
    have fresh : m ∉ ms := fun hm => apart m hm m List.mem_cons_self rfl
    rw [distinct_concat, ih before, addNew, if_neg fresh]

/-! ## Lists of spellings -/

/-- The modifiers of all spellings are added to those before. -/
theorem foldlM_parse {spellings : List String} {before ms : List Modifier} :
    spellings.foldlM (fun ms s => do return (← parse s).foldl addNew ms) before = .ok ms ↔
      ∃ parts : List (List Modifier), spellings.map parse = parts.map .ok ∧ ms = parts.flatten.foldl addNew before := by
  induction spellings generalizing before with
  | nil =>
    constructor
    · intro h
      exact ⟨[], rfl, (Except.ok.inj h).symm⟩
    · rintro ⟨parts, none_left, rfl⟩
      obtain rfl := List.map_eq_nil_iff.1 none_left.symm
      rfl
  | cons s spellings ih =>
    rw [List.foldlM_cons, bind_ok_iff]
    constructor
    · rintro ⟨next, read, later⟩
      obtain ⟨part, hpart, added⟩ := bind_ok_iff.1 read
      obtain rfl := Except.ok.inj added
      obtain ⟨parts, hparts, rfl⟩ := ih.1 later
      refine ⟨part :: parts, ?_, ?_⟩
      · rw [List.map_cons, List.map_cons, hpart, hparts]
      · rw [List.flatten_cons, List.foldl_append]
    · rintro ⟨parts, hparts, rfl⟩
      cases parts with
      | nil => cases hparts
      | cons part parts =>
        obtain ⟨hpart, hparts⟩ := List.cons.inj hparts
        refine ⟨part.foldl addNew before, bind_ok_iff.2 ⟨part, hpart, rfl⟩, ih.2 ⟨parts, hparts, ?_⟩⟩
        rw [List.flatten_cons, List.foldl_append]

theorem parseAll_ok_iff {spellings : List String} {ms : List Modifier} :
    parseAll spellings = .ok ms ↔
      ∃ parts : List (List Modifier), spellings.map parse = parts.map .ok ∧ ms = parts.flatten.eraseDups := by
  simp only [← distinct_eq_eraseDups]
  exact foldlM_parse

/-- The first spelling that stands for nothing is the error. -/
theorem parseAll_error_iff {spellings : List String} {e : RuleError} :
    parseAll spellings = .error e ↔
      ∃ before s after, spellings = before ++ s :: after ∧ (∀ t ∈ before, ∃ ms, parse t = .ok ms) ∧
        parse s = .error e := by
  have failed : ∀ (ms : List Modifier) (s : String),
      ((do return (← parse s).foldl addNew ms) : Except RuleError (List Modifier)) = .error e ↔ parse s = .error e := by
    intro ms s
    rw [bind_error_iff]
    exact or_iff_left fun ⟨_, _, never⟩ => (nomatch never)
  unfold parseAll
  simp only [foldlM_error_iff, failed, foldlM_parse, ← map_ok_iff]
  constructor
  · rintro ⟨before, s, after, t, split, ⟨parts, read, -⟩, unknown⟩
    exact ⟨before, s, after, split, ⟨parts, read⟩, unknown⟩
  · rintro ⟨before, s, after, split, ⟨parts, read⟩, unknown⟩
    exact ⟨before, s, after, _, split, ⟨parts, read, rfl⟩, unknown⟩

theorem parseAll_nodup {spellings : List String} {ms : List Modifier} (h : parseAll spellings = .ok ms) : ms.Nodup := by
  obtain ⟨parts, -, rfl⟩ := parseAll_ok_iff.1 h
  rw [← distinct_eq_eraseDups]
  exact distinct_nodup _

theorem parse_name (m : Modifier) : parse m.name = .ok [m] := by
  cases m <;> rfl

theorem parseAll_names {ms : List Modifier} (h : ms.Nodup) : parseAll (ms.map name) = .ok ms := by
  refine parseAll_ok_iff.2 ⟨ms.map ([·]), ?_, ?_⟩
  · rw [List.map_map, List.map_map]
    refine List.map_congr_left fun m _ => ?_
    rw [Function.comp_apply, Function.comp_apply, parse_name]
  · rw [← distinct_eq_eraseDups, ← List.flatMap_def, List.flatMap_singleton', distinct_of_nodup h]

end Modifier

namespace Action

/-- The loop of an action and that of a list of modifiers do the same. -/
theorem parseWith_eq (spelling : String) (modifiers : List String) :
    parseWith spelling modifiers = do return key (← Key.parse spelling) (← Modifier.parseAll modifiers) := by
  unfold parseWith Modifier.parseAll
  simp

theorem withModifiers_of_nodup {ms : List Modifier} (h : ms.Nodup) (k : Key) : withModifiers k ms = key k ms :=
  congrArg (key k) (Modifier.distinct_of_nodup h)

theorem parseWith_ok_iff {spelling : String} {modifiers : List String} {a : Action} :
    parseWith spelling modifiers = .ok a ↔
      ∃ k ms, Key.parse spelling = .ok k ∧ Modifier.parseAll modifiers = .ok ms ∧ a = withModifiers k ms := by
  simp only [parseWith_eq, bind_ok_iff]
  constructor
  · rintro ⟨k, hk, ms, hms, read⟩
    refine ⟨k, ms, hk, hms, ?_⟩
    rw [withModifiers_of_nodup (Modifier.parseAll_nodup hms)]
    exact (Except.ok.inj read).symm
  · rintro ⟨k, ms, hk, hms, rfl⟩
    rw [withModifiers_of_nodup (Modifier.parseAll_nodup hms)]
    exact ⟨k, hk, ms, hms, rfl⟩

end Action

/-! ## One spelling -/

namespace Modifier

/-- The texts that stand for modifiers. -/
inductive Spelled (t : String) : Prop where
  | combination (named : Text.lowerAscii t ∈ ["hyper", "meh"])
  | name (m : Modifier) (named : Text.lower t = m.name)
  | short (named : Text.lower t ∈ ["cmd", "ctrl", "opt", "alt"])
  | symbols (some_symbol : t ≠ "") (all_symbols : ∀ c ∈ t.toList, c ∈ ['⌘', '⌃', '⌥', '⇧'])

theorem mem_all (m : Modifier) : m ∈ all := by
  cases m <;> decide

theorem ofName?_isSome (s : String) : (ofName? s).isSome = true ↔ ∃ m : Modifier, s = m.name := by
  rw [ofName?, List.find?_isSome]
  constructor
  · rintro ⟨m, -, named⟩
    exact ⟨m, (of_decide_eq_true named).symm⟩
  · rintro ⟨m, named⟩
    exact ⟨m, m.mem_all, decide_eq_true named.symm⟩

theorem alias_isSome (t : String) : (ModifierAlias.ofName? t).isSome = true ↔ Text.lowerAscii t ∈ ["hyper", "meh"] := by
  rw [ModifierAlias.ofName?, List.find?_isSome]
  simp [ModifierAlias.all, ModifierAlias.name, eq_comm]

theorem shortName_isSome (s : String) : (shortNames.lookup s).isSome = true ↔ s ∈ ["cmd", "ctrl", "opt", "alt"] := by
  rw [List.lookup_isSome_iff]
  simp [shortNames]

theorem ofSymbol?_isSome (c : Char) : (ofSymbol? c).isSome = true ↔ c ∈ ['⌘', '⌃', '⌥', '⇧'] := by
  unfold ofSymbol?
  split <;> simp_all

theorem mapM_ofSymbol?_isSome (cs : List Char) :
    (cs.mapM ofSymbol?).isSome = true ↔ ∀ c ∈ cs, c ∈ ['⌘', '⌃', '⌥', '⇧'] := by
  induction cs with
  | nil => simp
  | cons c cs ih =>
    rw [List.mapM_cons, List.forall_mem_cons, ← ih, ← ofSymbol?_isSome]
    cases ofSymbol? c with
    | none => simp
    | some m => cases cs.mapM ofSymbol? <;> simp

theorem ofSymbols?_isSome (t : String) :
    (ofSymbols? t.toList).isSome = true ↔ t ≠ "" ∧ ∀ c ∈ t.toList, c ∈ ['⌘', '⌃', '⌥', '⇧'] := by
  unfold ofSymbols?
  split
  · rename_i none_left
    simp_all
  · rename_i some_left
    rw [Option.isSome_map, mapM_ofSymbol?_isSome]
    simp_all

/-- The alternatives are tried one after the other, and the first that fits decides. -/
theorem ofSpelling?_isSome (s : String) : (ofSpelling? s).isSome = true ↔ Spelled (Text.trim s) := by
  have alternatives : (ofSpelling? s).isSome = true ↔
      (ModifierAlias.ofName? (Text.trim s)).isSome = true ∨ (ofName? (Text.lower (Text.trim s))).isSome = true ∨
        (shortNames.lookup (Text.lower (Text.trim s))).isSome = true ∨
        (ofSymbols? (Text.trim s).toList).isSome = true := by
    unfold ofSpelling?
    simp only
    cases ModifierAlias.ofName? (Text.trim s) with
    | some combination => simp
    | none =>
      cases ofName? (Text.lower (Text.trim s)) with
      | some m => simp
      | none => cases shortNames.lookup (Text.lower (Text.trim s)) <;> simp
  rw [alternatives, alias_isSome, ofName?_isSome, shortName_isSome, ofSymbols?_isSome]
  constructor
  · rintro (named | ⟨m, named⟩ | named | ⟨some_symbol, all_symbols⟩)
    · exact .combination named
    · exact .name m named
    · exact .short named
    · exact .symbols some_symbol all_symbols
  · rintro (named | ⟨m, named⟩ | named | ⟨some_symbol, all_symbols⟩)
    · exact .inl named
    · exact .inr (.inl ⟨m, named⟩)
    · exact .inr (.inr (.inl named))
    · exact .inr (.inr (.inr ⟨some_symbol, all_symbols⟩))

theorem parse_ok_iff (s : String) : (∃ ms, parse s = .ok ms) ↔ Spelled (Text.trim s) := by
  rw [← ofSpelling?_isSome, parse]
  cases ofSpelling? s <;> simp

end Modifier

/-- A list of spellings fails with the error of the first spelling that stands for nothing. Else it is read into the
modifiers of all of them in order, each at its first occurrence, and the names of these read back as they are. A key
with modifiers is read if the key and the list of modifiers are, and it has these modifiers. -/
theorem modifiers_read (spellings : List String) :
    (∀ e, Modifier.parseAll spellings = .error e ↔
      ∃ before s after, spellings = before ++ s :: after ∧ (∀ t ∈ before, ∃ ms, Modifier.parse t = .ok ms) ∧
        Modifier.parse s = .error e) ∧
    (∀ ms, Modifier.parseAll spellings = .ok ms ↔
      ∃ parts : List (List Modifier), spellings.map Modifier.parse = parts.map .ok ∧ ms = parts.flatten.eraseDups) ∧
    (∀ ms, Modifier.parseAll spellings = .ok ms → ms.Nodup ∧ Modifier.parseAll (ms.map Modifier.name) = .ok ms) ∧
    (∀ spelling a, Action.parseWith spelling spellings = .ok a ↔
      ∃ k ms, Key.parse spelling = .ok k ∧ Modifier.parseAll spellings = .ok ms ∧ a = Action.withModifiers k ms) ∧
    ∀ s, (∃ ms, Modifier.parse s = .ok ms) ↔ Modifier.Spelled (Text.trim s) := by
  refine ⟨fun e => Modifier.parseAll_error_iff, fun ms => Modifier.parseAll_ok_iff, fun ms read => ?_,
    fun spelling a => Action.parseWith_ok_iff, Modifier.parse_ok_iff⟩
  have nodup := Modifier.parseAll_nodup read
  exact ⟨nodup, Modifier.parseAll_names nodup⟩

/-- An alias, a name that it has already, and a symbol twice. -/
theorem modifiers_read_hyper :
    Modifier.parseAll [" Hyper", "LEFT_SHIFT", "⌘⌘"] =
        .ok [.leftCommand, .leftControl, .leftOption, .leftShift, .command] ∧
      Modifier.parseAll ["left_command", "left_control", "left_option", "left_shift", "command"] =
        .ok [.leftCommand, .leftControl, .leftOption, .leftShift, .command] := by
  have read : Modifier.parseAll [" Hyper", "LEFT_SHIFT", "⌘⌘"] =
      .ok [.leftCommand, .leftControl, .leftOption, .leftShift, .command] := by rfl
  exact ⟨read, ((modifiers_read [" Hyper", "LEFT_SHIFT", "⌘⌘"]).2.2.1 _ read).2⟩

end KeyRules
