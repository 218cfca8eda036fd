import KeyRules.Text.Distance
import Mathlib.Order.Bounds.Basic

/-!
# Edit distance

The distance that is computed row by row is the least number of insertions, deletions and substitutions of characters
that lead from one text to the other (`distance_isLeast`). Between the rows and the edits stands a recursion over both
texts, `gap`: each entry of a row is the gap of two front parts (`rows_eq`), one edit moves the gap by at most one
(`Edit.gap_le`), and as many edits as the gap suffice (`edits_gap`).
-/

namespace KeyRules.Text

/-! ## Edits -/

/-- One insertion, deletion or substitution of a character at any place of a text. -/
inductive Edit : List Char → List Char → Prop where
  | insert (front back : List Char) (c : Char) : Edit (front ++ back) (front ++ c :: back)
  | delete (front back : List Char) (c : Char) : Edit (front ++ c :: back) (front ++ back)
  | substitute (front back : List Char) (c d : Char) : Edit (front ++ c :: back) (front ++ d :: back)

/-- A number of edits, one after the other. -/
inductive Edits : Nat → List Char → List Char → Prop where
  | done (cs : List Char) : Edits 0 cs cs
  | step {n : Nat} {cs ds es : List Char} : Edit cs ds → Edits n ds es → Edits (n + 1) cs es

theorem Edit.behind {cs ds : List Char} (c : Char) (h : Edit cs ds) : Edit (c :: cs) (c :: ds) := by
  cases h with
  | insert front back d => exact .insert (c :: front) back d
  | delete front back d => exact .delete (c :: front) back d
  | substitute front back d e => exact .substitute (c :: front) back d e

theorem Edits.behind {n : Nat} {cs ds : List Char} (c : Char) (h : Edits n cs ds) : Edits n (c :: cs) (c :: ds) := by
  induction h with
  | done cs => exact .done (c :: cs)
  | step first _ ih => exact .step (first.behind c) ih

theorem Edit.reversed {cs ds : List Char} (h : Edit cs ds) : Edit cs.reverse ds.reverse := by
  cases h with
  | insert front back c => simpa using Edit.insert back.reverse front.reverse c
  | delete front back c => simpa using Edit.delete back.reverse front.reverse c
  | substitute front back c d => simpa using Edit.substitute back.reverse front.reverse c d

theorem Edits.reversed {n : Nat} {cs ds : List Char} (h : Edits n cs ds) : Edits n cs.reverse ds.reverse := by
  induction h with
  | done cs => exact .done cs.reverse
  | step first _ ih => exact .step first.reversed ih

/-! ## The gap of two texts -/

/-- The distance by recursion over both texts: what the first characters cost, or one of them alone. -/
def gap : List Char → List Char → Nat
  | [], ds => ds.length
  | c :: cs, [] => (c :: cs).length
  | c :: cs, d :: ds =>
    min (min (gap cs ds + if c = d then 0 else 1) (gap cs (d :: ds) + 1)) (gap (c :: cs) ds + 1)
termination_by cs ds => cs.length + ds.length

theorem gap_nil_left (ds : List Char) : gap [] ds = ds.length := by
  rw [gap]

theorem gap_nil_right (cs : List Char) : gap cs [] = cs.length := by
  cases cs <;> rw [gap]

theorem gap_cons_cons (c d : Char) (cs ds : List Char) :
    gap (c :: cs) (d :: ds) =
      min (min (gap cs ds + if c = d then 0 else 1) (gap cs (d :: ds) + 1)) (gap (c :: cs) ds + 1) := by
  rw [gap]

theorem gap_self (cs : List Char) : gap cs cs = 0 := by
  induction cs with
  | nil => rw [gap_nil_left]; rfl
  | cons c cs ih => rw [gap_cons_cons, ih, if_pos rfl]; omega

/-- One more character on either side costs one edit at most. -/
theorem gap_cons_left (c : Char) (cs ds : List Char) : gap (c :: cs) ds ≤ gap cs ds + 1 := by
  cases ds with
  | nil => rw [gap_nil_right, gap_nil_right]; rfl
  | cons d ds => rw [gap_cons_cons]; omega

theorem gap_cons_right (cs : List Char) (d : Char) (ds : List Char) : gap cs (d :: ds) ≤ gap cs ds + 1 := by
  cases cs with
  | nil => rw [gap_nil_left, gap_nil_left]; rfl
  | cons c cs => rw [gap_cons_cons]; omega

theorem gap_le_cons (c : Char) (cs ds : List Char) : gap cs ds ≤ gap (c :: cs) ds + 1 := by
  induction ds with
  | nil =>
    rw [gap_nil_right, gap_nil_right, List.length_cons]
    omega
  | cons d ds ih =>
    have longer := gap_cons_right cs d ds
    rw [gap_cons_cons]
    omega

theorem gap_substitute (c d : Char) (cs es : List Char) : gap (c :: cs) es ≤ gap (d :: cs) es + 1 := by
  induction es with
  | nil => rw [gap_nil_right, gap_nil_right]; exact Nat.le_succ _
  | cons e es ih =>
    rw [gap_cons_cons, gap_cons_cons]
    split <;> split <;> omega

/-- Behind a common first character texts are no further apart. -/
theorem gap_behind {cs ds : List Char} (near : ∀ es, gap cs es ≤ gap ds es + 1) (c : Char) (es : List Char) :
    gap (c :: cs) es ≤ gap (c :: ds) es + 1 := by
  induction es with
  | nil =>
    have whole := near []
    rw [gap_nil_right, gap_nil_right] at whole ⊢
    simpa using whole
  | cons e es ih =>
    have both := near es
    have first := near (e :: es)
    rw [gap_cons_cons, gap_cons_cons]
    omega

theorem Edit.gap_le {cs ds : List Char} (h : Edit cs ds) (es : List Char) : gap cs es ≤ gap ds es + 1 := by
  -- by induction on what stands in front of the place
  cases h with
  | insert front back c =>
    induction front generalizing es with
    | nil => exact gap_le_cons c back es
    | cons f front ih => exact gap_behind ih f es
  | delete front back c =>
    induction front generalizing es with
    | nil => exact gap_cons_left c back es
    | cons f front ih => exact gap_behind ih f es
  | substitute front back c d =>
    induction front generalizing es with
    | nil => exact gap_substitute c d back es
    | cons f front ih => exact gap_behind ih f es

theorem Edits.gap_le {n : Nat} {cs ds : List Char} (h : Edits n cs ds) : gap cs ds ≤ n := by
  induction h with
  | done cs => exact Nat.le_of_eq (gap_self cs)
  | step first _ ih => exact Nat.le_trans (first.gap_le _) (Nat.succ_le_succ ih)

theorem edits_from_nil (ds : List Char) : Edits ds.length [] ds := by
  induction ds with
  | nil => exact .done []
  | cons d ds ih => exact .step (.insert [] [] d) (ih.behind d)

theorem edits_to_nil (cs : List Char) : Edits cs.length cs [] := by
  induction cs with
  | nil => exact .done []
  | cons c cs ih => exact .step (.delete [] cs c) ih

theorem edits_gap (cs ds : List Char) : Edits (gap cs ds) cs ds := by
  fun_induction gap cs ds with
  | case1 ds => exact edits_from_nil ds
  | case2 c cs => exact edits_to_nil (c :: cs)
  | case3 c cs d ds both first second =>
    have kept : Edits (gap cs ds + if c = d then 0 else 1) (c :: cs) (d :: ds) := by
      split
      · rename_i same
        exact same ▸ both.behind c
      · exact .step (.substitute [] cs c d) (both.behind d)
    have deleted : Edits (gap cs (d :: ds) + 1) (c :: cs) (d :: ds) := .step (.delete [] cs c) first
    have inserted : Edits (gap (c :: cs) ds + 1) (c :: cs) (d :: ds) := .step (.insert [] (c :: cs) d) (second.behind d)
    exact min_rec' (Edits · (c :: cs) (d :: ds)) (min_rec' (Edits · (c :: cs) (d :: ds)) kept deleted) inserted

theorem gap_isLeast (cs ds : List Char) : IsLeast {n | Edits n cs ds} (gap cs ds) :=
  ⟨edits_gap cs ds, fun _ => Edits.gap_le⟩

theorem gap_reverse (cs ds : List Char) : gap cs.reverse ds.reverse = gap cs ds := by
  apply Nat.le_antisymm
  · exact (edits_gap cs ds).reversed.gap_le
  · simpa using (edits_gap cs.reverse ds.reverse).reversed.gap_le

/-- The recursion may as well be over the last characters. -/
theorem gap_concat_concat (c d : Char) (cs ds : List Char) :
    gap (cs ++ [c]) (ds ++ [d]) =
      min (min (gap cs ds + if c = d then 0 else 1) (gap cs (ds ++ [d]) + 1)) (gap (cs ++ [c]) ds + 1) := by
  rw [← gap_reverse cs ds, ← gap_reverse (cs ++ [c]) (ds ++ [d]), ← gap_reverse cs (ds ++ [d]),
    ← gap_reverse (cs ++ [c]) ds, List.reverse_concat, List.reverse_concat]
  exact gap_cons_cons c d cs.reverse ds.reverse

/-! ## Rows -/

/-- The gaps of a text to `ds` and to all longer front parts of `ds ++ es`. -/
def gaps (cs : List Char) : List Char → List Char → List Nat
  | ds, [] => [gap cs ds]
  | ds, e :: es => gap cs ds :: gaps cs (ds ++ [e]) es

theorem gaps_eq_cons (cs ds es : List Char) : ∃ rest, gaps cs ds es = gap cs ds :: rest := by
  cases es <;> exact ⟨_, rfl⟩

theorem extendRow_gaps (c : Char) (cs ds es : List Char) :
    gap (cs ++ [c]) ds :: extendRow c (gap (cs ++ [c]) ds) es (gaps cs ds es) = gaps (cs ++ [c]) ds es := by
  induction es generalizing ds with
  | nil => rfl
  | cons e es ih =>
    obtain ⟨rest, above⟩ := gaps_eq_cons cs (ds ++ [e]) es
    have entry := gap_concat_concat c e cs ds
    rw [gaps, gaps, above, extendRow, ← entry, ← above, ← ih (ds ++ [e])]

theorem nextRow_gaps (c : Char) (cs es : List Char) : nextRow es (gaps cs [] es) c = gaps (cs ++ [c]) [] es := by
  obtain ⟨rest, row⟩ := gaps_eq_cons cs [] es
  have first : (gaps cs [] es).headD 0 + 1 = gap (cs ++ [c]) [] := by
    rw [row, gap_nil_right, List.headD_cons, gap_nil_right, List.length_append]
    rfl
  rw [nextRow, first]
  exact extendRow_gaps c cs [] es

theorem gaps_start (ds es : List Char) : gaps [] ds es = List.range' ds.length (es.length + 1) := by
  induction es generalizing ds with
  | nil => rw [gaps, gap_nil_left]; rfl
  | cons e es ih =>
    rw [gaps, ih, gap_nil_left, List.length_append, List.length_cons, List.range'_succ]
    rfl

/-- After each character the row holds the gaps of the text so far. -/
theorem rows_eq (cs ds es : List Char) : cs.foldl (nextRow es) (gaps ds [] es) = gaps (ds ++ cs) [] es := by
  induction cs generalizing ds with
  | nil => rw [List.append_nil]; rfl
  | cons c cs ih => rw [List.foldl_cons, nextRow_gaps, ih, List.append_assoc]; rfl

theorem gaps_getLast (cs ds es : List Char) : (gaps cs ds es).getLastD 0 = gap cs (ds ++ es) := by
  induction es generalizing ds with
  | nil => rw [List.append_nil]; rfl
  | cons e es ih =>
    obtain ⟨rest, row⟩ := gaps_eq_cons cs (ds ++ [e]) es
    have last := ih (ds ++ [e])
    rw [row] at last
    rw [gaps, row]
    simpa using last

theorem distance_eq_gap (s t : String) : distance s t = gap s.toList t.toList := by
  have start : List.range (t.toList.length + 1) = gaps [] [] t.toList := by
    rw [gaps_start, List.range_eq_range']
    rfl
  rw [distance, start, rows_eq, gaps_getLast]
  rfl

/-- The distance of two texts is the least number of edits between them. -/
theorem distance_isLeast (s t : String) : IsLeast {n | Edits n s.toList t.toList} (distance s t) := by
  rw [distance_eq_gap]
  exact gap_isLeast s.toList t.toList

end KeyRules.Text
