import KeyRules.Action
import KeyRules.Proofs.ModifierSpelling
import Mathlib.Control.Monad.Basic
import Mathlib.Data.List.Forall2

/-!
# Letter case

Modifiers are read alike in any ASCII letter case, aliases and names in lower case and symbols because they have no
case. Keys are not: an alias is looked up as it is written, before anything is put in lower case. So the five aliases
that are words are known in lower case only, although the names of keys and the short words for modifiers are known in
any case (`letter_case`).
-/

namespace KeyRules

/-! ## Texts up to letter case -/

namespace Text

/-- The same character up to the case of an ASCII letter. -/
def SameLetter (c d : Char) : Prop := d = c ∨ d = c.toLower ∨ d = c.toUpper

/-- The same text with some ASCII letters in the other case. -/
def Recased (s t : String) : Prop := List.Forall₂ SameLetter s.toList t.toList

section
variable {c d : Char}

instance : DecidableRel SameLetter := fun _ _ => inferInstanceAs (Decidable (_ ∨ _ ∨ _))

theorem isAlpha_eq (c : Char) :
    c.isAlpha = (decide (65 ≤ c.val ∧ c.val ≤ 90) || decide (97 ≤ c.val ∧ c.val ≤ 122)) := by
  rw [Bool.decide_and (97 ≤ c.val)]
  rfl

theorem letter_range (letter : c.isAlpha = true) :
    65 ≤ c.toNat ∧ c.toNat ≤ 90 ∨ 97 ≤ c.toNat ∧ c.toNat ≤ 122 := by
  rw [isAlpha_eq] at letter
  simpa [UInt32.le_iff_toNat_le, ← Char.toNat_val] using letter

theorem letter_cases (letter : c.isAlpha = true) :
    (c.toLower.isAlpha = true ∧ c.toUpper.isAlpha = true) ∧
      (c.toLower.toLower = c.toLower ∧ c.toUpper.toLower = c.toLower) ∧
      SameLetter c.toLower c ∧ SameLetter c.toUpper c := by
  have letters : ∀ n < 123, 65 ≤ n ∧ n ≤ 90 ∨ 97 ≤ n ∧ n ≤ 122 →
      ((Char.ofNat n).toLower.isAlpha = true ∧ (Char.ofNat n).toUpper.isAlpha = true) ∧
        ((Char.ofNat n).toLower.toLower = (Char.ofNat n).toLower ∧
          (Char.ofNat n).toUpper.toLower = (Char.ofNat n).toLower) ∧
        SameLetter (Char.ofNat n).toLower (Char.ofNat n) ∧ SameLetter (Char.ofNat n).toUpper (Char.ofNat n) := by
    decide
  have this := letters c.toNat (by have := letter_range letter; omega) (letter_range letter)
  rwa [Char.ofNat_toNat] at this

theorem no_letter_cases (other : c.isAlpha = false) : c.toLower = c ∧ c.toUpper = c := by
  rw [isAlpha_eq, Bool.or_eq_false_iff, decide_eq_false_iff_not, decide_eq_false_iff_not] at other
  exact ⟨dif_neg other.1, dif_neg other.2⟩

theorem SameLetter.eq_or_letters (h : SameLetter c d) : c = d ∨ c.isAlpha = true ∧ d.isAlpha = true := by
  cases letter : c.isAlpha with
  | true =>
    obtain ⟨⟨small, capital⟩, -⟩ := letter_cases letter
    rcases h with rfl | rfl | rfl
    · exact .inl rfl
    · exact .inr ⟨rfl, small⟩
    · exact .inr ⟨rfl, capital⟩
  | false =>
    obtain ⟨small, capital⟩ := no_letter_cases letter
    rcases h with rfl | rfl | rfl
    · exact .inl rfl
    · exact .inl small.symm
    · exact .inl capital.symm

theorem SameLetter.toLower_eq (h : SameLetter c d) : c.toLower = d.toLower := by
  rcases h.eq_or_letters with rfl | ⟨letter, -⟩
  · rfl
  · obtain ⟨-, ⟨small, capital⟩, -⟩ := letter_cases letter
    rcases h with rfl | rfl | rfl
    · rfl
    · exact small.symm
    · exact capital.symm

theorem SameLetter.symm (h : SameLetter c d) : SameLetter d c := by
  rcases h.eq_or_letters with rfl | ⟨letter, -⟩
  · exact h
  · obtain ⟨-, -, small, capital⟩ := letter_cases letter
    rcases h with rfl | rfl | rfl
    · exact .inl rfl
    · exact small
    · exact capital

/-- What does not tell letters apart does not see their case. -/
theorem SameLetter.congr {α : Type} {f : Char → α} {a : α} (letters : ∀ e : Char, e.isAlpha = true → f e = a)
    (h : SameLetter c d) : f c = f d := by
  rcases h.eq_or_letters with rfl | ⟨hc, hd⟩
  · rfl
  · rw [letters c hc, letters d hd]

theorem lowerChar_letter (letter : c.isAlpha = true) : lowerChar c = [c.toLower] :=
  if_pos (by have := letter_range letter; omega)

theorem isWithin_iff {parts : List (List (Nat × Nat))} {n : Nat} :
    isWithin parts n = true ↔ ∃ part ∈ parts, ∃ r ∈ part, r.1 ≤ n ∧ n ≤ r.2 := by
  simp [isWithin]

/-- Capitals are the first range of the table, small letters the second one. -/
theorem isCased_letter (letter : c.isAlpha = true) : isCased c = true := by
  refine isWithin_iff.2 ⟨Casing.casedLatinToGreek, List.mem_cons_self, ?_⟩
  rcases letter_range letter with capital | small
  · exact ⟨(0x41, 0x5a), List.mem_cons_self, capital⟩
  · exact ⟨(0x61, 0x7a), List.mem_cons_of_mem _ List.mem_cons_self, small⟩

theorem ignorable_no_letters : ∀ part ∈ Casing.ignorable, ∀ r ∈ part,
    r.2 < 65 ∨ 90 < r.1 ∧ r.2 < 97 ∨ 122 < r.1 := by
  decide +kernel

theorem isCaseIgnorable_letter (letter : c.isAlpha = true) : isCaseIgnorable c = false := by
  refine Bool.eq_false_iff.2 fun within => ?_
  obtain ⟨part, hp, r, hr, inside⟩ := isWithin_iff.1 within
  have outside := ignorable_no_letters part hp r hr
  have := letter_range letter
  omega

theorem SameLetter.sigma_iff (h : SameLetter c d) : c = 'Σ' ↔ d = 'Σ' := by
  rcases h.eq_or_letters with rfl | ⟨hc, hd⟩
  · rfl
  · refine iff_of_false ?_ ?_
    · rintro rfl
      cases hc
    · rintro rfl
      cases hd

theorem SameLetter.lowerChar_eq (h : SameLetter c d) : lowerChar c = lowerChar d := by
  rcases h.eq_or_letters with rfl | ⟨hc, hd⟩
  · rfl
  · rw [lowerChar_letter hc, lowerChar_letter hd, h.toLower_eq]

theorem isBlank_letter (letter : c.isAlpha = true) : isBlank c = false := by
  have := letter_range letter
  simp [isBlank]
  omega

end

section
variable {cs ds : List Char}

theorem forall₂_dropWhile {R : Char → Char → Prop} {p : Char → Bool} (same : ∀ c d, R c d → p c = p d)
    (h : List.Forall₂ R cs ds) : List.Forall₂ R (cs.dropWhile p) (ds.dropWhile p) := by
  induction h with
  | nil => exact .nil
  | @cons c d cs ds first rest ih =>
    rw [List.dropWhile_cons, List.dropWhile_cons, same c d first]
    split
    · exact ih
    · exact .cons first rest

theorem startsCased_recased (h : List.Forall₂ SameLetter cs ds) : startsCased cs = startsCased ds := by
  have counts : ∀ c d, SameLetter c d → isCaseIgnorable c = isCaseIgnorable d := fun _ _ =>
    SameLetter.congr fun _ => isCaseIgnorable_letter
  have counted := forall₂_dropWhile counts h
  unfold startsCased
  generalize cs.dropWhile isCaseIgnorable = cs, ds.dropWhile isCaseIgnorable = ds at counted
  cases counted with
  | nil => rfl
  | cons first _ => exact first.congr fun _ => isCased_letter

/-- Neither a letter in lower case nor the sigma at the end of a word depends on the case of other letters. -/
theorem lowerAfter_recased (h : List.Forall₂ SameLetter cs ds) {before others : List Char}
    (h' : List.Forall₂ SameLetter before others) : lowerAfter before cs = lowerAfter others ds := by
  induction h generalizing before others with
  | nil => rfl
  | @cons c d cs ds same rest ih =>
    rw [lowerAfter, lowerAfter, ih (.cons same h'), same.lowerChar_eq, smallSigma, smallSigma,
      startsCased_recased h', startsCased_recased rest]
    simp only [same.sigma_iff]

end

section
variable {s t : String}

theorem Recased.symm (h : Recased s t) : Recased t s :=
  List.Forall₂.flip (h.imp fun _ _ same => same.symm)

theorem Recased.lowerAscii_eq (h : Recased s t) : lowerAscii s = lowerAscii t := by
  have chars : List.Forall₂ (· = ·) (s.toList.map Char.toLower) (t.toList.map Char.toLower) :=
    List.rel_map (fun _ _ same => same.toLower_eq) h
  rw [List.forall₂_eq_eq_eq] at chars
  rw [lowerAscii, chars, lowerAscii]

theorem Recased.lower_eq (h : Recased s t) : lower s = lower t := by
  rw [lower, lowerAfter_recased h .nil, lower]

theorem Recased.trim (h : Recased s t) : Recased (trim s) (trim t) := by
  have blank : ∀ c d, SameLetter c d → isBlank c = isBlank d := fun _ _ => SameLetter.congr fun _ => isBlank_letter
  unfold Recased Text.trim
  rw [String.toList_ofList, String.toList_ofList]
  exact List.rel_reverse (forall₂_dropWhile blank (List.rel_reverse (forall₂_dropWhile blank h)))

/-- A text without letters has no other case. -/
theorem Recased.eq_of_plain (h : Recased s t) (plain : ∀ c ∈ s.toList, c.isAlpha = false) : s = t := by
  rw [← String.toList_inj]
  unfold Recased at h
  generalize s.toList = cs, t.toList = ds at h plain
  induction h with
  | nil => rfl
  | @cons c d cs ds same _ ih =>
    obtain ⟨first, others⟩ := List.forall_mem_cons.1 plain
    rcases same.eq_or_letters with rfl | ⟨letter, -⟩
    · rw [ih others]
    · rw [first] at letter
      cases letter

end

end Text

/-! ## Modifiers -/

namespace Modifier

open Text

theorem ofSymbol?_letter {c : Char} (letter : c.isAlpha = true) : ofSymbol? c = none := by
  rw [← Option.not_isSome_iff_eq_none, ofSymbol?_isSome]
  simp only [List.mem_cons, List.not_mem_nil, or_false]
  rintro (rfl | rfl | rfl | rfl) <;> cases letter

theorem ofSymbols?_recased {cs ds : List Char} (h : List.Forall₂ SameLetter cs ds) : ofSymbols? cs = ofSymbols? ds := by
  have symbols : cs.mapM ofSymbol? = ds.mapM ofSymbol? := by
    induction h with
    | nil => rfl
    | cons same _ ih => rw [List.mapM_cons, List.mapM_cons, ih, SameLetter.congr (fun _ => ofSymbol?_letter) same]
  have empty : cs.isEmpty = ds.isEmpty := by
    cases h <;> rfl
  rw [ofSymbols?, symbols, empty, ofSymbols?]

theorem ofSpelling?_recased {s t : String} (h : Recased s t) : ofSpelling? s = ofSpelling? t := by
  have trimmed := h.trim
  unfold ofSpelling? ModifierAlias.ofName?
  simp only [trimmed.lowerAscii_eq, trimmed.lower_eq, ofSymbols?_recased trimmed]

theorem parse_eq_ok_iff {s : String} {ms : List Modifier} : parse s = .ok ms ↔ ofSpelling? s = some ms := by
  unfold parse
  split <;> simp_all

theorem parse_recased {s t : String} (h : Recased s t) (ms : List Modifier) : parse s = .ok ms ↔ parse t = .ok ms := by
  rw [parse_eq_ok_iff, parse_eq_ok_iff, ofSpelling?_recased h]

end Modifier

/-! ## Keys -/

namespace Key

open Text

/-- The aliases that are words. The others have no letter (`alias_plain`). -/
def wordAliases : List String := ["space", "enter", "return", "esc", "backspace"]

theorem alias_plain : ∀ a ∈ aliases.map (·.1), a ∉ wordAliases → a.toList.all (fun c => !c.isAlpha) = true := by
  decide +kernel

theorem wordAlias_lower : ∀ w ∈ wordAliases, lowerAscii w = w := by
  decide +kernel

/-- No word is also the name of a key. -/
theorem wordAlias_not_name : ∀ w ∈ wordAliases, ofName? (lower w) = none := by
  decide +kernel

theorem wordAlias_known : ∀ w ∈ wordAliases, (ofSpelling? w).isSome = true := by
  decide +kernel

theorem wordAlias_not_combination : ∀ w ∈ wordAliases, ModifierAlias.ofName? (trim w) = none := by
  decide +kernel

theorem canonicalName_self {s : String} (unlisted : s ∉ aliases.map (·.1)) : canonicalName s = s := by
  have absent : aliases.lookup s = none := by
    refine List.lookup_eq_none_iff.2 fun a ha => ?_
    rw [bne_iff_ne]
    rintro rfl
    exact unlisted (List.mem_map_of_mem ha)
  rw [canonicalName, absent]
  rfl

theorem parse_eq_ok_iff {s : String} {k : Key} : parse s = .ok k ↔ ofSpelling? s = some k := by
  unfold parse
  split <;> simp_all

section
variable {s t : String}

/-- A symbol has one case, so in another case it is itself. -/
theorem unlisted_of_recased (h : Recased s t) (differ : s ≠ t) (no_word : s ∉ wordAliases) : s ∉ aliases.map (·.1) :=
  fun listed => differ (h.eq_of_plain (by simpa using alias_plain s listed no_word))

theorem ofSpelling?_recased (h : Recased s t) (hs : s ∉ wordAliases) (ht : t ∉ wordAliases) :
    ofSpelling? s = ofSpelling? t := by
  by_cases differ : s = t
  · rw [differ]
  · rw [ofSpelling?, ofSpelling?, canonicalName_self (unlisted_of_recased h differ hs),
      canonicalName_self (unlisted_of_recased h.symm (Ne.symm differ) ht), h.lower_eq]

/-- A word is in lower case, so it has no other case among the words. -/
theorem not_word_of_recased (h : Recased s t) (hs : s ∈ wordAliases) (differ : t ≠ s) : t ∉ wordAliases := by
  intro ht
  apply differ
  rw [← wordAlias_lower t ht, ← h.lowerAscii_eq, wordAlias_lower s hs]

theorem ofSpelling?_capitals (h : Recased s t) (hs : s ∈ wordAliases) (differ : t ≠ s) : ofSpelling? t = none := by
  have unlisted := unlisted_of_recased h.symm differ (not_word_of_recased h hs differ)
  rw [ofSpelling?, canonicalName_self unlisted, ← h.lower_eq, wordAlias_not_name s hs]

end

end Key

namespace Action

open Text

theorem parse_of_key {s : String} (plain : ModifierAlias.ofName? (trim s) = none) :
    parse s = (fun k => key k []) <$> Key.parse s := by
  rw [parse, plain]
  cases Key.parse s with
  | error e => rfl
  | ok k => rfl

theorem parse_recased {s t : String} (h : Recased s t) (keys : ∀ k, Key.parse s = .ok k ↔ Key.parse t = .ok k) (a : Action) :
    parse s = .ok a ↔ parse t = .ok a := by
  have combination : ModifierAlias.ofName? (trim s) = ModifierAlias.ofName? (trim t) := by
    rw [ModifierAlias.ofName?, ModifierAlias.ofName?, h.trim.lowerAscii_eq]
  cases known : ModifierAlias.ofName? (trim s) with
  | some name =>
    rw [parse, parse, ← combination, known]
  | none =>
    rw [parse_of_key known, parse_of_key (combination ▸ known)]
    simp only [map_eq_bind_pure_comp, bind_ok_iff, keys]

end Action

/-! ## All spellings -/

/-- In another ASCII letter case a spelling stands for the same modifiers, if for any. It also names the same key and the
same action, if any, where neither of the two spellings is an alias that is a word. Such an alias is known as it is,
and unknown in any other case. -/
theorem letter_case {s t : String} (recased : Text.Recased s t) :
    (∀ ms, Modifier.parse s = .ok ms ↔ Modifier.parse t = .ok ms) ∧
    (s ∉ Key.wordAliases → t ∉ Key.wordAliases →
      (∀ k, Key.parse s = .ok k ↔ Key.parse t = .ok k) ∧ ∀ a, Action.parse s = .ok a ↔ Action.parse t = .ok a) ∧
    (s ∈ Key.wordAliases → t ≠ s →
      (∃ k, Key.parse s = .ok k) ∧ Key.parse t = .error (.unknownKey t) ∧ Action.parse t = .error (.unknownKey t)) := by
  refine ⟨Modifier.parse_recased recased, fun hs ht => ?_, fun hs differ => ?_⟩
  · have keys : ∀ k, Key.parse s = .ok k ↔ Key.parse t = .ok k := by
      intro k
      rw [Key.parse_eq_ok_iff, Key.parse_eq_ok_iff, Key.ofSpelling?_recased recased hs ht]
    exact ⟨keys, Action.parse_recased recased keys⟩
  · obtain ⟨k, known⟩ := Option.isSome_iff_exists.1 (Key.wordAlias_known s hs)
    have unknown : Key.parse t = .error (.unknownKey t) := by
      rw [Key.parse, Key.ofSpelling?_capitals recased hs differ]
    have plain : ModifierAlias.ofName? (Text.trim t) = none := by
      rw [ModifierAlias.ofName?, ← recased.trim.lowerAscii_eq]
      exact Key.wordAlias_not_combination s hs
    refine ⟨⟨k, Key.parse_eq_ok_iff.2 known⟩, unknown, ?_⟩
    rw [Action.parse_of_key plain, unknown]
    rfl

theorem esc_recased : Text.Recased "esc" "Esc" :=
  .cons (.inr (.inr rfl)) (.cons (.inl rfl) (.cons (.inl rfl) .nil))

/-- The escape key is known by its short name, and not with a capital. -/
theorem letter_case_esc :
    Text.Recased "esc" "Esc" ∧ (∃ k, Key.parse "esc" = .ok k) ∧ Key.parse "Esc" = .error (.unknownKey "Esc") := by
  obtain ⟨known, unknown, -⟩ := (letter_case esc_recased).2.2 (by decide) (by decide)
  exact ⟨esc_recased, known, unknown⟩

/-- So letter case does decide whether a key is known. -/
theorem letter_case_decides :
    ¬∀ s t, Text.Recased s t → ∀ k, Key.parse s = .ok k ↔ Key.parse t = .ok k := by
  intro same
  have known : ∃ k, Key.parse "esc" = .ok k := ⟨_, rfl⟩
  obtain ⟨k, hk⟩ := known
  have unknown : Key.parse "Esc" = .error (.unknownKey "Esc") := rfl
  have found := (same "esc" "Esc" esc_recased k).1 hk
  rw [unknown] at found
  cases found

end KeyRules
