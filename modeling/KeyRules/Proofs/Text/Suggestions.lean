import KeyRules.Error
import KeyRules.Proofs.Text.EditDistance
import Mathlib.Data.List.Forall2
import Mathlib.Data.List.Nodup
import Mathlib.Data.String.Basic

/-!
# Suggestions

An unknown spelling is answered with the first five of the entries that it may have meant (`MayMean`), ranked by their
distance and then by their places in the vocabulary (`Ranking`). This holds of any vocabulary. Among ASCII entries, as
those for keys and modifiers are, it does not matter which characters outside ASCII a spelling has (`closest_alike`).
-/

namespace KeyRules.Text

/-! ## Which entries, in which order -/

/-- A text may have meant an entry at most two edits away, or one that begins it or begins with it, if the shorter of
the two has at least two bytes. -/
def MayMean (needle entry : String) : Prop :=
  distance needle entry ≤ 2 ∨
    (entry.toList <+: needle.toList ∨ needle.toList <+: entry.toList) ∧
      2 ≤ min needle.utf8ByteSize entry.utf8ByteSize

/-- Nearer to a text, or as near and earlier in the vocabulary. -/
def Precedes (needle : String) (vocabulary : List String) (x y : String) : Prop :=
  distance needle x < distance needle y ∨
    distance needle x = distance needle y ∧ vocabulary.idxOf x < vocabulary.idxOf y

/-- All entries that a text may have meant, in order. -/
structure Ranking (needle : String) (vocabulary ranked : List String) : Prop where
  entries : ∀ entry, entry ∈ ranked ↔ entry ∈ vocabulary ∧ MayMean needle entry
  ordered : ranked.Pairwise (Precedes needle vocabulary)

instance (needle entry : String) : Decidable (MayMean needle entry) :=
  inferInstanceAs (Decidable (_ ∨ _))

instance (needle : String) (vocabulary : List String) : DecidableRel (Precedes needle vocabulary) :=
  fun _ _ => inferInstanceAs (Decidable (_ ∨ _))

instance (needle : String) (vocabulary ranked : List String) : Decidable (Ranking needle vocabulary ranked) :=
  decidable_of_iff
    ((∀ entry ∈ ranked, entry ∈ vocabulary ∧ MayMean needle entry) ∧
      (∀ entry ∈ vocabulary, MayMean needle entry → entry ∈ ranked) ∧ ranked.Pairwise (Precedes needle vocabulary))
    ⟨fun ⟨only, every, ordered⟩ => ⟨fun entry => ⟨only entry, fun ⟨known, meant⟩ => every entry known meant⟩, ordered⟩,
      fun ⟨entries, ordered⟩ =>
        ⟨fun entry => (entries entry).1, fun entry known meant => (entries entry).2 ⟨known, meant⟩, ordered⟩⟩

section
variable {needle : String} {vocabulary : List String}

theorem Precedes.asymm {x y : String} (before : Precedes needle vocabulary x y) :
    ¬Precedes needle vocabulary y x := by
  unfold Precedes at before ⊢
  omega

theorem Ranking.nodup {ranked : List String} (h : Ranking needle vocabulary ranked) : ranked.Nodup :=
  h.ordered.imp fun before same => (same ▸ before).asymm (same ▸ before)

theorem Ranking.unique {ranked others : List String} (h : Ranking needle vocabulary ranked)
    (h' : Ranking needle vocabulary others) : ranked = others := by
  have same : ranked.Perm others :=
    (List.perm_ext_iff_of_nodup h.nodup h'.nodup).2 fun entry => (h.entries entry).trans (h'.entries entry).symm
  refine same.eq_of_pairwise (fun x y _ _ before after => ?_) h.ordered h'.ordered
  exact (before.asymm after).elim

/-! ## Scored entries -/

theorem size_le_of_begins {s t : String} (begins : s.toList <+: t.toList) : s.utf8ByteSize ≤ t.utf8ByteSize := by
  obtain ⟨rest, whole⟩ := begins
  have split : t = s ++ String.ofList rest := by
    rw [← String.toList_inj, String.toList_append, String.toList_ofList, whole]
  rw [split, String.utf8ByteSize_append]
  exact Nat.le_add_right _ _

theorem sharesStart_iff (entry : String) :
    sharesStart needle entry = true ↔
      (entry.toList <+: needle.toList ∨ needle.toList <+: entry.toList) ∧
        2 ≤ min needle.utf8ByteSize entry.utf8ByteSize := by
  unfold sharesStart
  simp only [Bool.and_eq_true, Bool.or_eq_true, decide_eq_true_eq, List.isPrefixOf_iff_prefix, Nat.le_min]
  constructor
  · rintro ⟨long, inside | ⟨long', begins⟩⟩
    · exact ⟨.inr inside, long, Nat.le_trans long (size_le_of_begins inside)⟩
    · exact ⟨.inl begins, long, long'⟩
  · rintro ⟨begins | inside, long, long'⟩
    · exact ⟨long, .inr ⟨long', begins⟩⟩
    · exact ⟨long, .inl inside⟩

theorem mayMean_iff (entry : String) :
    (distance needle entry ≤ 2 || sharesStart needle entry) = true ↔ MayMean needle entry := by
  rw [Bool.or_eq_true, decide_eq_true_eq, sharesStart_iff, MayMean]

/-- An entry behind its distance and its place, if a text may have meant it. -/
def score (needle : String) (placed : String × Nat) : Option (Nat × Nat × String) :=
  if distance needle placed.1 ≤ 2 || sharesStart needle placed.1 then
    some (distance needle placed.1, placed.2, placed.1)
  else none

def scored (needle : String) (vocabulary : List String) : List (Nat × Nat × String) :=
  vocabulary.zipIdx.filterMap (score needle)

theorem closest_eq (needle : String) (vocabulary : List String) :
    closest needle vocabulary =
      if needle = "" then [] else (((scored needle vocabulary).mergeSort nearer).map (·.2.2)).take 5 := by
  unfold closest
  rw [List.map_take]
  simp only [String.isEmpty_iff]
  rfl

theorem score_eq_some_iff {placed : String × Nat} {gap place : Nat} {entry : String} :
    score needle placed = some (gap, place, entry) ↔
      placed = (entry, place) ∧ MayMean needle entry ∧ gap = distance needle entry := by
  obtain ⟨other, at_place⟩ := placed
  unfold score
  rw [Prod.mk.injEq]
  split
  · rename_i meant
    rw [mayMean_iff] at meant
    rw [Option.some.injEq, Prod.mk.injEq, Prod.mk.injEq]
    constructor
    · rintro ⟨rfl, rfl, rfl⟩
      exact ⟨⟨rfl, rfl⟩, meant, rfl⟩
    · rintro ⟨⟨rfl, rfl⟩, -, rfl⟩
      exact ⟨rfl, rfl, rfl⟩
  · rename_i not_meant
    rw [mayMean_iff] at not_meant
    refine iff_of_false (fun h => nomatch h) ?_
    rintro ⟨⟨rfl, rfl⟩, meant, -⟩
    exact not_meant meant

theorem mem_scored {gap place : Nat} {entry : String} :
    (gap, place, entry) ∈ scored needle vocabulary ↔
      vocabulary[place]? = some entry ∧ MayMean needle entry ∧ gap = distance needle entry := by
  simp only [scored, List.mem_filterMap, score_eq_some_iff, List.mem_zipIdx_iff_getElem?]
  constructor
  · rintro ⟨placed, known, rfl, meant⟩
    exact ⟨known, meant⟩
  · rintro ⟨known, meant⟩
    exact ⟨(entry, place), known, rfl, meant⟩

theorem scored_nodup (needle : String) (vocabulary : List String) : (scored needle vocabulary).Nodup := by
  have places : vocabulary.zipIdx.Nodup := by
    refine List.Nodup.of_map Prod.snd ?_
    rw [List.zipIdx_map_snd]
    exact List.nodup_range'
  refine places.filterMap fun x y found hx hy => ?_
  obtain ⟨gap, place, entry⟩ := found
  exact (score_eq_some_iff.1 hx).1.trans (score_eq_some_iff.1 hy).1.symm

theorem nearer_iff (x y : Nat × Nat × String) : nearer x y = true ↔ x.1 < y.1 ∨ x.1 = y.1 ∧ x.2.1 ≤ y.2.1 := by
  simp [nearer]

theorem nearer_sorts (scores : List (Nat × Nat × String)) :
    (scores.mergeSort nearer).Pairwise fun x y => nearer x y = true := by
  refine List.pairwise_mergeSort (fun x y z hxy hyz => ?_) (fun x y => ?_) scores
  · rw [nearer_iff] at hxy hyz ⊢
    omega
  · rw [Bool.or_eq_true, nearer_iff, nearer_iff]
    omega

theorem idxOf_placed (distinct : vocabulary.Nodup) {place : Nat} {entry : String}
    (placed : vocabulary[place]? = some entry) : vocabulary.idxOf entry = place := by
  obtain ⟨inside, rfl⟩ := List.getElem?_eq_some_iff.1 placed
  exact distinct.idxOf_getElem place inside

/-- In a vocabulary without repeats the sorted scores are in the order of their entries. -/
theorem precedes_of_nearer (distinct : vocabulary.Nodup) {x y : Nat × Nat × String} (hx : x ∈ scored needle vocabulary)
    (hy : y ∈ scored needle vocabulary) (sorted : nearer x y = true) (differ : x ≠ y) :
    Precedes needle vocabulary x.2.2 y.2.2 := by
  obtain ⟨gap, place, entry⟩ := x
  obtain ⟨gap', place', entry'⟩ := y
  obtain ⟨placed, -, rfl⟩ := mem_scored.1 hx
  obtain ⟨placed', -, rfl⟩ := mem_scored.1 hy
  have apart : place ≠ place' := by
    rintro rfl
    obtain rfl := Option.some.inj (placed.symm.trans placed')
    exact differ rfl
  rw [nearer_iff] at sorted
  rw [Precedes, idxOf_placed distinct placed, idxOf_placed distinct placed']
  simp only at sorted ⊢
  omega

theorem ranking_sorted (distinct : vocabulary.Nodup) :
    Ranking needle vocabulary (((scored needle vocabulary).mergeSort nearer).map (·.2.2)) := by
  constructor
  case entries =>
    intro entry
    simp only [List.mem_map, List.mem_mergeSort]
    constructor
    · rintro ⟨⟨gap, place, _⟩, found, rfl⟩
      obtain ⟨placed, meant, -⟩ := mem_scored.1 found
      exact ⟨List.mem_of_getElem? placed, meant⟩
    · rintro ⟨known, meant⟩
      obtain ⟨place, placed⟩ := List.mem_iff_getElem?.1 known
      exact ⟨(distance needle entry, place, entry), mem_scored.2 ⟨placed, meant, rfl⟩, rfl⟩
  case ordered =>
    have sorted := nearer_sorts (scored needle vocabulary)
    have differ : ((scored needle vocabulary).mergeSort nearer).Nodup :=
      (List.mergeSort_perm _ _).nodup_iff.2 (scored_nodup needle vocabulary)
    rw [List.pairwise_map]
    refine (sorted.and differ).imp_of_mem fun hx hy h => ?_
    exact precedes_of_nearer distinct (List.mem_mergeSort.1 hx) (List.mem_mergeSort.1 hy) h.1 h.2

theorem closest_ranked (distinct : vocabulary.Nodup) (some_text : needle ≠ "") :
    ∃ ranked, (∀ other, Ranking needle vocabulary other ↔ other = ranked) ∧
      closest needle vocabulary = ranked.take 5 := by
  have sorted : Ranking needle vocabulary _ := ranking_sorted distinct
  refine ⟨_, fun other => ⟨fun ranking => ranking.unique sorted, fun same => same ▸ sorted⟩, ?_⟩
  rw [closest_eq, if_neg some_text]

end

/-! ## Letters outside ASCII -/

/-- The same character, or two outside ASCII. -/
def SameInAscii (c d : Char) : Prop := c = d ∨ 127 < c.val ∧ 127 < d.val

/-- Texts with the same ASCII characters at the same places. -/
def Alike (s t : String) : Prop := List.Forall₂ SameInAscii s.toList t.toList

def IsAscii (s : String) : Prop := ∀ c ∈ s.toList, c.val ≤ 127

theorem SameInAscii.eq_iff {c d e : Char} (same : SameInAscii c d) (ascii : e.val ≤ 127) : c = e ↔ d = e := by
  rcases same with rfl | ⟨hc, hd⟩
  · exact Iff.rfl
  · refine iff_of_false ?_ ?_
    · rintro rfl
      exact absurd hc (UInt32.not_lt.2 ascii)
    · rintro rfl
      exact absurd hd (UInt32.not_lt.2 ascii)

theorem gap_alike {cs ds es : List Char} (alike : List.Forall₂ SameInAscii cs ds) (ascii : ∀ e ∈ es, e.val ≤ 127) :
    gap cs es = gap ds es := by
  induction alike generalizing es with
  | nil => rfl
  | @cons c d cs ds same alike outer =>
    induction es with
    | nil => rw [gap_nil_right, gap_nil_right, List.length_cons, List.length_cons, alike.length_eq]
    | cons e es inner =>
      obtain ⟨first, others⟩ := List.forall_mem_cons.1 ascii
      rw [gap_cons_cons, gap_cons_cons, outer ascii, outer others, inner others]
      simp only [same.eq_iff first]

theorem prefix_alike {cs ds es : List Char} (alike : List.Forall₂ SameInAscii cs ds) (ascii : ∀ e ∈ es, e.val ≤ 127) :
    (cs <+: es ↔ ds <+: es) ∧ (es <+: cs ↔ es <+: ds) := by
  induction alike generalizing es with
  | nil => exact ⟨Iff.rfl, Iff.rfl⟩
  | @cons c d cs ds same alike ih =>
    cases es with
    | nil => simp
    | cons e es =>
      obtain ⟨first, others⟩ := List.forall_mem_cons.1 ascii
      obtain ⟨inside, begins⟩ := ih others
      rw [List.cons_prefix_cons, List.cons_prefix_cons, List.cons_prefix_cons, List.cons_prefix_cons, inside, begins,
        same.eq_iff first, eq_comm (a := e), eq_comm (a := e), same.eq_iff first]
      exact ⟨Iff.rfl, Iff.rfl⟩

theorem SameInAscii.two_bytes {c d : Char} (same : SameInAscii c d) : 2 ≤ c.utf8Size ↔ 2 ≤ d.utf8Size := by
  rcases same with rfl | ⟨hc, hd⟩
  · exact Iff.rfl
  · have wide : ∀ e : Char, 127 < e.val → 2 ≤ e.utf8Size := by
      intro e he
      have positive := e.utf8Size_pos
      have several : e.utf8Size ≠ 1 := fun one => absurd he (UInt32.not_lt.2 (Char.utf8Size_eq_one_iff.1 one))
      omega
    exact iff_of_true (wide c hc) (wide d hd)

theorem two_bytes_alike {cs ds : List Char} (alike : List.Forall₂ SameInAscii cs ds) :
    2 ≤ String.utf8Len cs ↔ 2 ≤ String.utf8Len ds := by
  cases alike with
  | nil => exact Iff.rfl
  | @cons c d cs ds same alike =>
    cases alike with
    | nil => simpa [String.utf8Len_cons] using same.two_bytes
    | @cons c' d' cs ds =>
      have several : ∀ (e f : Char) (es : List Char), 2 ≤ String.utf8Len (e :: f :: es) := by
        intro e f es
        have first := e.utf8Size_pos
        have second := f.utf8Size_pos
        rw [String.utf8Len_cons, String.utf8Len_cons]
        omega
      exact iff_of_true (several c c' cs) (several d d' ds)

section
variable {s t entry : String}

theorem Alike.distance (alike : Alike s t) (ascii : IsAscii entry) : distance s entry = distance t entry := by
  rw [distance_eq_gap, distance_eq_gap]
  exact gap_alike alike ascii

theorem Alike.sharesStart (alike : Alike s t) (ascii : IsAscii entry) : sharesStart s entry = sharesStart t entry := by
  have bytes : 2 ≤ s.utf8ByteSize ↔ 2 ≤ t.utf8ByteSize := by
    have same := two_bytes_alike alike
    rwa [← String.utf8ByteSize_ofList, ← String.utf8ByteSize_ofList, String.ofList_toList, String.ofList_toList] at same
  obtain ⟨inside, begins⟩ := prefix_alike alike ascii
  rw [Bool.eq_iff_iff, sharesStart_iff, sharesStart_iff, inside, begins, Nat.le_min, Nat.le_min, bytes]

theorem Alike.empty_iff (alike : Alike s t) : s = "" ↔ t = "" := by
  rw [← String.toList_eq_nil_iff, ← String.toList_eq_nil_iff, ← List.length_eq_zero_iff, alike.length_eq,
    List.length_eq_zero_iff]

/-- Among ASCII entries no character outside ASCII can find its like. -/
theorem closest_alike {vocabulary : List String} (ascii : ∀ entry ∈ vocabulary, IsAscii entry) (alike : Alike s t) :
    closest s vocabulary = closest t vocabulary := by
  have scores : scored s vocabulary = scored t vocabulary := by
    refine List.filterMap_congr fun placed known => ?_
    have entry := ascii placed.1 (List.mem_of_getElem? (List.mem_zipIdx_iff_getElem?.1 known))
    rw [score, score, alike.distance entry, alike.sharesStart entry]
  rw [closest_eq, closest_eq, scores]
  simp only [alike.empty_iff]

end

/-! ## Suggestions for a spelling -/

theorem lowerChar_ne_nil (c : Char) : lowerChar c ≠ [] := by
  unfold lowerChar
  split
  · exact List.cons_ne_nil _ _
  · split <;> exact List.cons_ne_nil _ _

theorem lower_eq_empty_iff (s : String) : lower s = "" ↔ s = "" := by
  rw [← String.toList_eq_nil_iff, ← String.toList_eq_nil_iff, lower, String.toList_ofList]
  cases s.toList with
  | nil => exact iff_of_true rfl rfl
  | cons c cs =>
    refine iff_of_false (fun gone => ?_) (List.cons_ne_nil c cs)
    have first := (List.append_eq_nil_iff.1 gone).1
    split at first
    · cases first
    · exact lowerChar_ne_nil c first

/-- The distance of two texts is the least number of insertions, deletions and substitutions between them. A spelling
is answered with the first five of the entries that its lower case may have meant, ranked by distance and then by place,
and an empty one with none. The same holds of the entries closest to any text; and among ASCII entries these do not
depend on which characters outside ASCII the text has. -/
theorem suggestions_ranked {vocabulary : List String} (distinct : vocabulary.Nodup) :
    (∀ s t : String, IsLeast {n | Edits n s.toList t.toList} (distance s t)) ∧
    (∀ input, input ≠ "" →
      ∃ ranked, (∀ other, Ranking (lower input) vocabulary other ↔ other = ranked) ∧
        suggest input vocabulary = ranked.take 5) ∧
    suggest "" vocabulary = [] ∧
    (∀ needle, needle ≠ "" →
      ∃ ranked, (∀ other, Ranking needle vocabulary other ↔ other = ranked) ∧
        closest needle vocabulary = ranked.take 5) ∧
    ((∀ entry ∈ vocabulary, IsAscii entry) →
      ∀ input text, Alike (lower input) text → suggest input vocabulary = closest text vocabulary) := by
  refine ⟨distance_isLeast, fun input some_text => ?_, ?_, fun needle => closest_ranked distinct, ?_⟩
  · exact closest_ranked distinct (mt (lower_eq_empty_iff input).1 some_text)
  · rw [suggest, closest_eq, if_pos ((lower_eq_empty_iff "").2 rfl)]
  · exact fun ascii input text alike => closest_alike ascii alike

/-- `fn` and `meh` are two edits away and come first. Of the four names that begin with the spelling two are equally far
away, and the later one of them is cut off. -/
theorem suggestions_ranked_modifiers :
    RuleError.modifierVocabulary.Nodup ∧
      Ranking "le" RuleError.modifierVocabulary
        ["fn", "meh", "left_shift", "left_option", "left_command", "left_control"] ∧
      suggest "Le" RuleError.modifierVocabulary = ["fn", "meh", "left_shift", "left_option", "left_command"] := by
  have distinct : RuleError.modifierVocabulary.Nodup := by decide +kernel
  have ranking : Ranking "le" RuleError.modifierVocabulary
      ["fn", "meh", "left_shift", "left_option", "left_command", "left_control"] := by decide +kernel
  have lowered : lower "Le" = "le" := by decide +kernel
  obtain ⟨ranked, only, first_five⟩ := (suggestions_ranked distinct).2.1 "Le" (by decide)
  rw [lowered] at only
  rw [first_five, ← (only _).1 ranking]
  exact ⟨distinct, ranking, rfl⟩

/-- The sigma that ends the word is put in its final form. -/
example : suggest "ΟΔΟΣ" ["οδο", "οδος"] = ["οδος", "οδο"] := by cbv

end KeyRules.Text
