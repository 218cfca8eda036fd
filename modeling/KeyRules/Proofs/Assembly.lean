import KeyRules.Proofs.Compiled
import KeyRules.Proofs.Passes
import Mathlib.Data.List.Induction
import Mathlib.Data.String.Basic

/-!
# Assembly

Assembly accepts exactly the well-formed lists of groups, and keeps them as they are (`RuleSet.assemble_decides`). Its
error is about the first fault it meets (`RuleSet.Fault`): a repeated group name; else the first fragment that writes a
flag a second time; else the first fragment that reads a flag no group up to its own writes. Of several such flags of
that fragment it is the least.
-/

namespace KeyRules

/-! ## Sorted flags -/

namespace Flag

theorem mem_insert {f g : Flag} {fs : List Flag} : f ∈ insert g fs ↔ f = g ∨ f ∈ fs := by
  induction fs with
  | nil => simp [insert]
  | cons h fs ih =>
    simp only [insert]
    split
    · simp
    · split
      · rename_i heq
        simp [heq]
      · simp only [List.mem_cons, ih]
        exact or_left_comm

theorem mem_sorted {f : Flag} {fs : List Flag} : f ∈ sorted fs ↔ f ∈ fs := by
  induction fs with
  | nil => exact Iff.rfl
  | cons g fs ih =>
    show f ∈ insert g (sorted fs) ↔ f ∈ g :: fs
    rw [mem_insert, ih, List.mem_cons]

/-- The flags stand in the order of their names, and none is repeated. -/
abbrev Ascending (fs : List Flag) : Prop := fs.Pairwise (·.name < ·.name)

theorem insert_ascending (f : Flag) {fs : List Flag} (ascending : Ascending fs) : Ascending (insert f fs) := by
  induction fs with
  | nil => exact List.pairwise_singleton _ f
  | cons g gs ih =>
    obtain ⟨first, others⟩ := List.pairwise_cons.1 ascending
    unfold insert
    split
    · rename_i below
      refine List.pairwise_cons.2 ⟨fun h hh => ?_, ascending⟩
      rcases List.mem_cons.1 hh with rfl | hh
      · exact below
      · exact below.trans (first h hh)
    · rename_i notBelow
      split
      · exact ascending
      · rename_i differs
        refine List.pairwise_cons.2 ⟨fun h hh => ?_, ih others⟩
        rcases mem_insert.1 hh with rfl | hh
        · exact lt_of_le_of_ne (not_lt.1 notBelow) fun same => differs (congrArg Flag.mk same.symm)
        · exact first h hh

theorem sorted_ascending (fs : List Flag) : Ascending (sorted fs) := by
  induction fs with
  | nil => exact List.Pairwise.nil
  | cons f fs ih => exact insert_ascending f ih

theorem Ascending.nodup {fs : List Flag} (ascending : Ascending fs) : fs.Nodup :=
  ascending.imp fun below same => (below.trans_eq (congrArg Flag.name same.symm)).false

theorem Ascending.first_iff_least {fs : List Flag} (ascending : Ascending fs) {bad : Flag → Prop} {flag : Flag} :
    (∃ before after, fs = before ++ flag :: after ∧ (∀ f ∈ before, ¬bad f) ∧ bad flag) ↔
      flag ∈ fs ∧ bad flag ∧ ∀ f ∈ fs, bad f → flag.name ≤ f.name := by
  constructor
  · rintro ⟨before, after, rfl, good, here⟩
    refine ⟨by simp, here, fun f hf badly => ?_⟩
    obtain ⟨-, later, -⟩ := List.pairwise_append.1 ascending
    rcases List.mem_append.1 hf with hf | hf
    · exact absurd badly (good f hf)
    · rcases List.mem_cons.1 hf with rfl | hf
      · exact le_refl _
      · exact ((List.pairwise_cons.1 later).1 f hf).le
  · rintro ⟨listed, here, least⟩
    obtain ⟨before, after, rfl⟩ := List.append_of_mem listed
    obtain ⟨-, -, sooner⟩ := List.pairwise_append.1 ascending
    refine ⟨before, after, rfl, fun f hf badly => ?_, here⟩
    exact absurd (sooner f hf flag List.mem_cons_self) (not_lt.2 (least f (List.mem_append_left _ hf) badly))

end Flag

namespace RuleSet

/-! ## Entries -/

theorem entries_fragments (groups : List Group) :
    (entries groups).map (·.fragment) = groups.flatMap (·.fragments) := by
  have h : (entries groups).map (·.fragment) = groups.zipIdx.flatMap fun g => g.1.fragments := by
    simp [entries, List.map_flatMap, Function.comp_def]
  rw [h, ← List.flatMap_map Prod.fst, List.zipIdx_map_fst]

theorem mem_entries_iff {groups : List Group} {e : Entry} :
    e ∈ entries groups ↔ ∃ g, groups[e.place]? = some g ∧ e.group = g.name ∧ e.fragment ∈ g.fragments := by
  simp only [entries, List.mem_flatMap, List.mem_map, Prod.exists, List.mem_zipIdx_iff_getElem?]
  constructor
  · rintro ⟨g, place, here, f, hf, rfl⟩
    exact ⟨g, here, rfl, hf⟩
  · rintro ⟨g, here, named, hf⟩
    exact ⟨g, e.place, here, e.fragment, hf, by rw [← named]⟩

/-! ## Faults -/

/-- A flag that an earlier fragment writes already. -/
def Taken (before : List Entry) (_ : Entry) (flag : Flag) : Prop := ∃ w ∈ before, flag ∈ w.fragment.writes

/-- A flag that no group up to that of the entry writes. -/
def Unserved (es : List Entry) (e : Entry) (flag : Flag) : Prop :=
  ∀ w ∈ es, flag ∈ w.fragment.writes → e.place < w.place

/-- No flag is written by two fragments. -/
def SoleWriters (es : List Entry) : Prop := es.Pairwise fun d e => ∀ flag ∈ d.fragment.writes, flag ∉ e.fragment.writes

/-- The first entry that has an offending flag among those looked at, and the least one it has. What offends may depend
on the entries before. -/
structure FirstOffence (es : List Entry) (looked : Fragment → List Flag)
    (Offends : List Entry → Entry → Flag → Prop) (before : List Entry) (e : Entry) (flag : Flag) : Prop where
  placed : before ++ [e] <+: es
  listed : flag ∈ looked e.fragment
  offends : Offends before e flag
  least : ∀ other ∈ looked e.fragment, Offends before e other → flag.name ≤ other.name
  earlier : ∀ sooner d, sooner ++ [d] <+: before → ∀ other ∈ looked d.fragment, ¬Offends sooner d other

/-- Names are not repeated, no flag has two writers, and a flag that a fragment reads is written in the same group or an
earlier one. -/
structure WellFormed (groups : List Group) : Prop where
  names : (groups.map (·.name)).Nodup
  writers : (groups.flatMap (·.fragments)).Pairwise fun f g => ∀ flag ∈ f.writes, flag ∉ g.writes
  reads : ∀ (i : Nat) (g : Group), groups[i]? = some g → ∀ f ∈ g.fragments, ∀ flag ∈ f.reads,
    ∃ j ≤ i, ∃ h : Group, groups[j]? = some h ∧ ∃ w ∈ h.fragments, flag ∈ w.writes

/-- What assembly reports about groups that are not well formed. -/
inductive Fault (groups : List Group) : RuleError → Prop where
  | repeatedName {before : List Group} {g : Group} (placed : before ++ [g] <+: groups)
      (fresh : (before.map (·.name)).Nodup) (again : g.name ∈ before.map (·.name)) :
      Fault groups (.duplicateGroup g.name)
  | secondWriter {before : List Entry} {e w : Entry} {flag : Flag} (names : (groups.map (·.name)).Nodup)
      (first : FirstOffence (entries groups) (·.writes) Taken before e flag)
      (earlier : w ∈ before) (writes : flag ∈ w.fragment.writes) :
      Fault groups (.duplicateFlagWriter flag.name w.fragment.description e.fragment.description)
  | missingWriter {before : List Entry} {e : Entry} {flag : Flag} (names : (groups.map (·.name)).Nodup)
      (sole : SoleWriters (entries groups))
      (first : FirstOffence (entries groups) (·.reads) (fun _ => Unserved (entries groups)) before e flag)
      (nowhere : ∀ w ∈ entries groups, flag ∉ w.fragment.writes) :
      Fault groups (.unknownFlag flag.name e.fragment.description)
  | lateWriter {before : List Entry} {e w : Entry} {flag : Flag} (names : (groups.map (·.name)).Nodup)
      (sole : SoleWriters (entries groups))
      (first : FirstOffence (entries groups) (·.reads) (fun _ => Unserved (entries groups)) before e flag)
      (listed : w ∈ entries groups) (writes : flag ∈ w.fragment.writes) :
      Fault groups (.flagOrder flag.name e.group w.group)

/-! ## Names -/

/-- The first name that comes again, after names that were seen before. -/
theorem repeatedName?_eq_some {seen : List String} (fresh : seen.Nodup) {groups : List Group} {name : String} :
    repeatedName? seen groups = some name ↔
      ∃ before g, before ++ [g] <+: groups ∧ (seen ++ before.map (·.name)).Nodup ∧
        g.name ∈ seen ++ before.map (·.name) ∧ name = g.name := by
  induction groups generalizing seen with
  | nil => simp [repeatedName?]
  | cons g gs ih =>
    unfold repeatedName?
    split
    · rename_i again
      constructor
      · intro h
        exact ⟨[], g, ⟨gs, rfl⟩, by simpa using fresh, by simpa using again, (Option.some.inj h).symm⟩
      · rintro ⟨before, h, placed, apart, -, rfl⟩
        cases before with
        | nil => rw [(List.cons_prefix_cons.1 placed).1]
        | cons b before =>
          -- a name that was seen cannot stand among the ones before the first repetition
          rw [(List.cons_prefix_cons.1 placed).1, List.map_cons, List.nodup_append] at apart
          exact absurd rfl (apart.2.2 g.name again g.name List.mem_cons_self)
    · rename_i unseen
      have fresh' : (seen ++ [g.name]).Nodup := List.concat_eq_append ▸ fresh.concat unseen
      rw [ih fresh']
      constructor
      · rintro ⟨before, h, placed, apart, again, rfl⟩
        exact ⟨g :: before, h, List.cons_prefix_cons.2 ⟨rfl, placed⟩, by simpa using apart, by simpa using again, rfl⟩
      · rintro ⟨before, h, placed, apart, again, rfl⟩
        cases before with
        | nil =>
          rw [(List.cons_prefix_cons.1 placed).1, List.map_nil, List.append_nil] at again
          exact absurd again unseen
        | cons b before =>
          obtain ⟨rfl, further⟩ := List.cons_prefix_cons.1 placed
          exact ⟨before, h, further, by simpa using apart, by simpa using again, rfl⟩

theorem repeatedName?_eq_none {seen : List String} (fresh : seen.Nodup) {groups : List Group} :
    repeatedName? seen groups = none ↔ (seen ++ groups.map (·.name)).Nodup := by
  induction groups generalizing seen with
  | nil => simpa [repeatedName?] using fresh
  | cons g gs ih =>
    unfold repeatedName?
    split
    · rename_i again
      refine ⟨fun h => (nomatch h), fun apart => ?_⟩
      exact absurd rfl ((List.nodup_append.1 apart).2.2 g.name again g.name List.mem_cons_self)
    · rename_i unseen
      have fresh' : (seen ++ [g.name]).Nodup := List.concat_eq_append ▸ fresh.concat unseen
      rw [ih fresh', List.append_assoc, List.singleton_append, List.map_cons]

theorem repeatedName?_none {groups : List Group} : repeatedName? [] groups = none ↔ (groups.map (·.name)).Nodup :=
  repeatedName?_eq_none List.nodup_nil

/-! ## Writers -/

/-- The written flags of entries, each with its writer. -/
def writings (es : List Entry) : Writers := es.flatMap fun e => e.fragment.writes.map (·, e)

theorem writings_flags (es : List Entry) : (writings es).map (·.1) = es.flatMap (·.fragment.writes) := by
  simp [writings, List.map_flatMap, Function.comp_def]

theorem mem_writings {es : List Entry} {flag : Flag} {w : Entry} :
    (flag, w) ∈ writings es ↔ w ∈ es ∧ flag ∈ w.fragment.writes := by
  simp only [writings, List.mem_flatMap, List.mem_map, Prod.mk.injEq]
  constructor
  · rintro ⟨e, he, f, hf, rfl, rfl⟩
    exact ⟨he, hf⟩
  · rintro ⟨he, hf⟩
    exact ⟨w, he, flag, hf, rfl, rfl⟩

theorem soleWriters_iff {es : List Entry} : SoleWriters es ↔ (es.flatMap (·.fragment.writes)).Nodup := by
  rw [List.nodup_flatMap]
  exact ⟨fun sole => ⟨fun e _ => (Flag.sorted_ascending _).nodup, sole⟩, fun h => h.2⟩

theorem lookup_writings {es : List Entry} (sole : SoleWriters es) {flag : Flag} {w : Entry} :
    (writings es).lookup flag = some w ↔ w ∈ es ∧ flag ∈ w.fragment.writes := by
  rw [← mem_writings, List.lookup_eq_some_iff]
  constructor
  · rintro ⟨before, after, split, -⟩
    simp [split]
  · intro listed
    obtain ⟨before, after, split⟩ := List.append_of_mem listed
    have apart := soleWriters_iff.1 sole
    rw [← writings_flags, split, List.map_append, List.nodup_append] at apart
    refine ⟨before, after, split, fun p hp => bne_iff_ne.2 fun same => ?_⟩
    exact apart.2.2 p.1 (List.mem_map_of_mem hp) flag List.mem_cons_self same.symm

theorem lookup_writings_none {es : List Entry} {e : Entry} {flag : Flag} :
    (writings es).lookup flag = none ↔ ¬Taken es e flag := by
  rw [List.lookup_eq_none_iff]
  constructor
  · rintro others ⟨w, hw, writes⟩
    exact bne_iff_ne.1 (others (flag, w) (mem_writings.2 ⟨hw, writes⟩)) rfl
  · intro free p hp
    refine bne_iff_ne.2 fun same => free ?_
    obtain ⟨hw, writes⟩ := mem_writings.1 hp
    exact ⟨p.2, hw, same ▸ writes⟩

theorem lookup_others {ws : Writers} {e : Entry} {flag : Flag} (flags : List Flag) (other : flag ∉ flags) :
    (ws ++ flags.map (·, e)).lookup flag = ws.lookup flag := by
  have missing : (flags.map (·, e)).lookup flag = none := by
    refine List.lookup_eq_none_iff.2 fun p hp => bne_iff_ne.2 fun same => other ?_
    obtain ⟨f, hf, rfl⟩ := List.mem_map.1 hp
    exact same ▸ hf
  rw [List.lookup_append, missing, Option.or_none]

theorem addWriter_ok_iff {e : Entry} {ws more : Writers} {flag : Flag} :
    addWriter e ws flag = .ok more ↔ ws.lookup flag = none ∧ more = ws ++ [(flag, e)] := by
  unfold addWriter
  cases ws.lookup flag with
  | some w => exact ⟨fun h => (nomatch h), fun h => (nomatch h.1)⟩
  | none => exact ⟨fun h => ⟨rfl, (Except.ok.inj h).symm⟩, fun h => h.2 ▸ rfl⟩

theorem addWriter_error_iff {e : Entry} {ws : Writers} {flag : Flag} {err : RuleError} :
    addWriter e ws flag = .error err ↔ ∃ w, ws.lookup flag = some w ∧
      err = .duplicateFlagWriter flag.name w.fragment.description e.fragment.description := by
  unfold addWriter
  cases ws.lookup flag with
  | some w =>
    constructor
    · exact fun h => ⟨w, rfl, (Except.error.inj h).symm⟩
    · rintro ⟨v, same, rfl⟩
      rw [Option.some.inj same]
  | none => exact ⟨fun h => (nomatch h), fun ⟨_, h, _⟩ => (nomatch h)⟩

/-- The flags of an entry come after those that were there, and none was. -/
theorem addWriters_ok_iff {e : Entry} {flags : List Flag} (apart : flags.Nodup) {ws more : Writers} :
    flags.foldlM (addWriter e) ws = .ok more ↔
      (∀ f ∈ flags, ws.lookup f = none) ∧ more = ws ++ flags.map (·, e) := by
  induction flags generalizing ws with
  | nil =>
    rw [List.map_nil, List.append_nil]
    exact ⟨fun h => ⟨fun f hf => (List.not_mem_nil hf).elim, (Except.ok.inj h).symm⟩, fun h => h.2 ▸ rfl⟩
  | cons flag flags ih =>
    obtain ⟨new, apart⟩ := List.nodup_cons.1 apart
    have unchanged : ∀ f ∈ flags, (ws ++ [(flag, e)]).lookup f = ws.lookup f := fun f hf =>
      lookup_others [flag] fun same => new (List.mem_singleton.1 same ▸ hf)
    rw [List.foldlM_cons, bind_ok_iff, List.forall_mem_cons]
    constructor
    · rintro ⟨next, here, rest⟩
      obtain ⟨free, rfl⟩ := addWriter_ok_iff.1 here
      obtain ⟨others, rfl⟩ := (ih apart).1 rest
      exact ⟨⟨free, fun f hf => unchanged f hf ▸ others f hf⟩, by simp⟩
    · rintro ⟨⟨free, others⟩, rfl⟩
      have rest : ∀ f ∈ flags, (ws ++ [(flag, e)]).lookup f = none := fun f hf => (unchanged f hf).trans (others f hf)
      exact ⟨_, addWriter_ok_iff.2 ⟨free, rfl⟩, (ih apart).2 ⟨rest, by simp⟩⟩

theorem addWriters_error_iff {e : Entry} {flags : List Flag} (apart : flags.Nodup) {ws : Writers} {err : RuleError} :
    flags.foldlM (addWriter e) ws = .error err ↔
      ∃ before flag after, flags = before ++ flag :: after ∧ (∀ f ∈ before, ws.lookup f = none) ∧
        ∃ w, ws.lookup flag = some w ∧
          err = .duplicateFlagWriter flag.name w.fragment.description e.fragment.description := by
  rw [foldlM_error_iff]
  constructor
  · rintro ⟨before, flag, after, next, rfl, ran, failed⟩
    obtain ⟨first, -, others⟩ := List.nodup_append.1 apart
    obtain ⟨free, rfl⟩ := (addWriters_ok_iff first).1 ran
    rw [addWriter_error_iff, lookup_others before fun hf => others flag hf flag List.mem_cons_self rfl] at failed
    exact ⟨before, flag, after, rfl, free, failed⟩
  · rintro ⟨before, flag, after, rfl, free, failed⟩
    obtain ⟨first, -, others⟩ := List.nodup_append.1 apart
    refine ⟨before, flag, after, _, rfl, (addWriters_ok_iff first).2 ⟨free, rfl⟩, ?_⟩
    rwa [addWriter_error_iff, lookup_others before fun hf => others flag hf flag List.mem_cons_self rfl]

theorem writes_ascending (f : Fragment) : Flag.Ascending f.writes := Flag.sorted_ascending _

theorem reads_ascending (f : Fragment) : Flag.Ascending f.reads := Flag.sorted_ascending _

theorem soleWriters_concat {es : List Entry} {e : Entry} :
    SoleWriters (es ++ [e]) ↔ SoleWriters es ∧ ∀ f ∈ e.fragment.writes, ¬Taken es e f := by
  rw [SoleWriters, List.pairwise_append]
  constructor
  · rintro ⟨sole, -, others⟩
    exact ⟨sole, fun f hf ⟨w, hw, writes⟩ => others w hw e List.mem_cons_self f writes hf⟩
  · rintro ⟨sole, free⟩
    refine ⟨sole, List.pairwise_singleton _ e, fun w hw d hd f writes hf => ?_⟩
    rw [List.mem_singleton.1 hd] at hf
    exact free f hf ⟨w, hw, writes⟩

theorem writers_ok_iff {es : List Entry} {ws : Writers} :
    writers es = .ok ws ↔ SoleWriters es ∧ ws = writings es := by
  induction es using List.reverseRecOn generalizing ws with
  | nil => exact ⟨fun h => ⟨List.Pairwise.nil, (Except.ok.inj h).symm⟩, fun h => h.2 ▸ rfl⟩
  | append_singleton es e ih =>
    have split : writers (es ++ [e]) = writers es >>= e.fragment.writes.foldlM (addWriter e) := by
      simp [writers, List.foldlM_append]
    have more : writings (es ++ [e]) = writings es ++ e.fragment.writes.map (·, e) := by simp [writings]
    rw [split, bind_ok_iff, soleWriters_concat, more]
    constructor
    · rintro ⟨vs, before, here⟩
      obtain ⟨sole, rfl⟩ := ih.1 before
      obtain ⟨free, rfl⟩ := (addWriters_ok_iff (writes_ascending _).nodup).1 here
      exact ⟨⟨sole, fun f hf => lookup_writings_none.1 (free f hf)⟩, rfl⟩
    · rintro ⟨⟨sole, free⟩, rfl⟩
      refine ⟨writings es, ih.2 ⟨sole, rfl⟩, (addWriters_ok_iff (writes_ascending _).nodup).2 ⟨fun f hf => ?_, rfl⟩⟩
      exact lookup_writings_none.2 (free f hf)

/-- Entries with sole writers have no entry that writes a taken flag. -/
theorem SoleWriters.free {es : List Entry} (sole : SoleWriters es) :
    ∀ before e, before ++ [e] <+: es → ∀ flag ∈ e.fragment.writes, ¬Taken before e flag := by
  intro before e placed
  exact (soleWriters_concat.1 (List.Pairwise.sublist placed.sublist sole)).2

theorem soleWriters_of_free {es : List Entry}
    (free : ∀ before e, before ++ [e] <+: es → ∀ flag ∈ e.fragment.writes, ¬Taken before e flag) : SoleWriters es := by
  induction es using List.reverseRecOn with
  | nil => exact List.Pairwise.nil
  | append_singleton es e ih =>
    refine soleWriters_concat.2 ⟨ih fun before d placed => ?_, free es e (List.prefix_refl _)⟩
    exact free before d (placed.trans (List.prefix_append _ _))

/-- The error is about the first fragment that writes a taken flag. -/
theorem writers_error_iff {es : List Entry} {err : RuleError} :
    writers es = .error err ↔
      ∃ before e flag, FirstOffence es (·.writes) Taken before e flag ∧ ∃ w ∈ before, flag ∈ w.fragment.writes ∧
        err = .duplicateFlagWriter flag.name w.fragment.description e.fragment.description := by
  rw [writers, foldlM_error_iff]
  constructor
  · rintro ⟨before, e, after, ws, rfl, ran, failed⟩
    obtain ⟨sole, rfl⟩ := writers_ok_iff.1 ran
    obtain ⟨sooner, flag, later, split, free, w, found, rfl⟩ :=
      (addWriters_error_iff (writes_ascending _).nodup).1 failed
    obtain ⟨hw, writes⟩ := (lookup_writings sole).1 found
    obtain ⟨listed, offends, least⟩ := (writes_ascending e.fragment).first_iff_least.1
      ⟨sooner, later, split, fun f hf => lookup_writings_none.1 (free f hf), (⟨w, hw, writes⟩ : Taken before e flag)⟩
    exact ⟨before, e, flag, ⟨concat_prefix_iff.2 ⟨after, rfl⟩, listed, offends, least, sole.free⟩, w, hw, writes, rfl⟩
  · rintro ⟨before, e, flag, ⟨placed, listed, offends, least, earlier⟩, w, hw, writes, rfl⟩
    obtain ⟨after, rfl⟩ := concat_prefix_iff.1 placed
    have sole := soleWriters_of_free earlier
    obtain ⟨sooner, later, split, free, -⟩ := (writes_ascending e.fragment).first_iff_least.2 ⟨listed, offends, least⟩
    refine ⟨before, e, after, _, rfl, writers_ok_iff.2 ⟨sole, rfl⟩, ?_⟩
    refine (addWriters_error_iff (writes_ascending _).nodup).2 ⟨sooner, flag, later, split, fun f hf => ?_, w, ?_, rfl⟩
    · exact lookup_writings_none.2 (free f hf)
    · exact (lookup_writings sole).2 ⟨hw, writes⟩

/-! ## Reads -/

section
variable {es : List Entry} (sole : SoleWriters es) {e : Entry} {flag : Flag} {err : RuleError}
include sole

theorem unserved_iff {w : Entry} (found : (writings es).lookup flag = some w) :
    Unserved es e flag ↔ e.place < w.place := by
  obtain ⟨hw, writes⟩ := (lookup_writings sole).1 found
  refine ⟨fun late => late w hw writes, fun late v hv also => ?_⟩
  have same := (lookup_writings sole).2 ⟨hv, also⟩
  rw [found] at same
  exact Option.some.inj same ▸ late

theorem checkRead_ok_iff : checkRead (writings es) e flag = .ok () ↔ ¬Unserved es e flag := by
  unfold checkRead
  cases found : (writings es).lookup flag with
  | none =>
    have free := lookup_writings_none (e := e).1 found
    exact ⟨fun h => (nomatch h), fun served => absurd (fun w hw writes => absurd ⟨w, hw, writes⟩ free) served⟩
  | some w =>
    rw [unserved_iff sole found]
    dsimp only
    split
    · rename_i late
      exact ⟨fun h => (nomatch h), fun inTime => absurd late inTime⟩
    · rename_i inTime
      exact ⟨fun _ => inTime, fun _ => rfl⟩

theorem checkRead_error_iff :
    checkRead (writings es) e flag = .error err ↔ Unserved es e flag ∧
      ((∀ w ∈ es, flag ∉ w.fragment.writes) ∧ err = .unknownFlag flag.name e.fragment.description ∨
        ∃ w ∈ es, flag ∈ w.fragment.writes ∧ err = .flagOrder flag.name e.group w.group) := by
  unfold checkRead
  cases found : (writings es).lookup flag with
  | none =>
    have nowhere : ∀ w ∈ es, flag ∉ w.fragment.writes := fun w hw writes =>
      lookup_writings_none (e := e).1 found ⟨w, hw, writes⟩
    constructor
    · intro h
      exact ⟨fun w hw writes => absurd writes (nowhere w hw), .inl ⟨nowhere, (Except.error.inj h).symm⟩⟩
    · rintro ⟨-, ⟨-, rfl⟩ | ⟨w, hw, writes, -⟩⟩
      · rfl
      · exact absurd writes (nowhere w hw)
  | some w =>
    obtain ⟨hw, writes⟩ := (lookup_writings sole).1 found
    rw [unserved_iff sole found]
    dsimp only
    split
    · rename_i late
      constructor
      · exact fun h => ⟨late, .inr ⟨w, hw, writes, (Except.error.inj h).symm⟩⟩
      · rintro ⟨-, ⟨nowhere, -⟩ | ⟨v, hv, also, rfl⟩⟩
        · exact absurd writes (nowhere w hw)
        · have same := (lookup_writings sole).2 ⟨hv, also⟩
          rw [found] at same
          rw [Option.some.inj same]
    · rename_i inTime
      exact ⟨fun h => (nomatch h), fun h => absurd h.1 inTime⟩

theorem checkReads_ok_iff :
    checkReads (writings es) es = .ok () ↔ ∀ e ∈ es, ∀ flag ∈ e.fragment.reads, ¬Unserved es e flag := by
  simp only [checkReads, forM_ok_iff, checkRead_ok_iff sole]

/-- The error is about the first fragment that reads an unserved flag. -/
theorem checkReads_error_iff :
    checkReads (writings es) es = .error err ↔
      ∃ before e flag, FirstOffence es (·.reads) (fun _ => Unserved es) before e flag ∧
        ((∀ w ∈ es, flag ∉ w.fragment.writes) ∧ err = .unknownFlag flag.name e.fragment.description ∨
          ∃ w ∈ es, flag ∈ w.fragment.writes ∧ err = .flagOrder flag.name e.group w.group) := by
  simp only [checkReads, forM_error_iff, forM_ok_iff, checkRead_ok_iff sole, checkRead_error_iff sole]
  constructor
  · rintro ⟨before, e, after, placed, served, sooner, flag, later, split, free, late, told⟩
    obtain ⟨listed, offends, least⟩ :=
      (reads_ascending e.fragment).first_iff_least.1 ⟨sooner, later, split, free, late⟩
    refine ⟨before, e, flag, ⟨concat_prefix_iff.2 ⟨after, placed⟩, listed, offends, least, ?_⟩, told⟩
    intro front d further
    exact served d (further.subset (by simp))
  · rintro ⟨before, e, flag, ⟨placed, listed, offends, least, earlier⟩, told⟩
    obtain ⟨after, split⟩ := concat_prefix_iff.1 placed
    obtain ⟨sooner, later, found, free, late⟩ :=
      (reads_ascending e.fragment).first_iff_least.2 ⟨listed, offends, least⟩
    refine ⟨before, e, after, split, fun d hd => ?_, sooner, flag, later, found, free, late, told⟩
    obtain ⟨front, back, rfl⟩ := List.append_of_mem hd
    exact earlier front d (concat_prefix_iff.2 ⟨back, rfl⟩)

end

/-! ## Outcomes -/

theorem served_iff {es : List Entry} {e : Entry} {flag : Flag} :
    ¬Unserved es e flag ↔ ∃ w ∈ es, flag ∈ w.fragment.writes ∧ w.place ≤ e.place := by
  simp only [Unserved, not_forall, Nat.not_lt, exists_prop]

theorem wellFormed_iff {groups : List Group} :
    WellFormed groups ↔ (groups.map (·.name)).Nodup ∧ SoleWriters (entries groups) ∧
      ∀ e ∈ entries groups, ∀ flag ∈ e.fragment.reads, ¬Unserved (entries groups) e flag := by
  have sole : SoleWriters (entries groups) ↔
      (groups.flatMap (·.fragments)).Pairwise fun f g => ∀ flag ∈ f.writes, flag ∉ g.writes := by
    rw [← entries_fragments, List.pairwise_map]
    rfl
  rw [sole]
  constructor
  · rintro ⟨names, writers, reads⟩
    refine ⟨names, writers, fun e he flag hf => served_iff.2 ?_⟩
    obtain ⟨g, here, -, hg⟩ := mem_entries_iff.1 he
    obtain ⟨j, upTo, h, there, w, hw, writes⟩ := reads e.place g here e.fragment hg flag hf
    exact ⟨⟨j, h.name, w⟩, mem_entries_iff.2 ⟨h, there, rfl, hw⟩, writes, upTo⟩
  · rintro ⟨names, writers, reads⟩
    refine ⟨names, writers, fun i g here f hf flag read => ?_⟩
    obtain ⟨w, hw, writes, upTo⟩ :=
      served_iff.1 (reads ⟨i, g.name, f⟩ (mem_entries_iff.2 ⟨g, here, rfl, hf⟩) flag read)
    obtain ⟨h, there, -, hh⟩ := mem_entries_iff.1 hw
    exact ⟨w.place, upTo, h, there, w.fragment, hh, writes⟩

/-- Without repeated names an assembly is the two scans of the entries. -/
theorem assemble_of_names {groups : List Group} (names : (groups.map (·.name)).Nodup) :
    assemble groups = do
      let ws ← writers (entries groups)
      checkReads ws (entries groups)
      return ⟨groups⟩ := by
  rw [assemble, repeatedName?_none.2 names]

theorem assemble_ok_iff {groups : List Group} {r : RuleSet} :
    assemble groups = .ok r ↔ WellFormed groups ∧ r = ⟨groups⟩ := by
  rw [wellFormed_iff]
  by_cases names : (groups.map (·.name)).Nodup
  · rw [assemble_of_names names, bind_ok_iff]
    constructor
    · rintro ⟨ws, found, rest⟩
      obtain ⟨sole, rfl⟩ := writers_ok_iff.1 found
      obtain ⟨⟨⟩, checked, rest⟩ := bind_ok_iff.1 rest
      exact ⟨⟨names, sole, (checkReads_ok_iff sole).1 checked⟩, (Except.ok.inj rest).symm⟩
    · rintro ⟨⟨-, sole, served⟩, rfl⟩
      refine ⟨_, writers_ok_iff.2 ⟨sole, rfl⟩, bind_ok_iff.2 ⟨(), (checkReads_ok_iff sole).2 served, rfl⟩⟩
  · refine ⟨fun h => ?_, fun h => absurd h.1.1 names⟩
    rw [← repeatedName?_none] at names
    obtain ⟨name, again⟩ := Option.ne_none_iff_exists'.1 names
    rw [assemble, again] at h
    cases h

theorem assemble_error_iff {groups : List Group} {err : RuleError} :
    assemble groups = .error err ↔ Fault groups err := by
  cases again : repeatedName? [] groups with
  | some name =>
    have repeated : ¬(groups.map (·.name)).Nodup := by rw [← repeatedName?_none, again]; exact Option.some_ne_none name
    obtain ⟨before, g, placed, fresh, seen, rfl⟩ := (repeatedName?_eq_some List.nodup_nil).1 again
    rw [assemble, again]
    constructor
    · intro h
      rw [← Except.error.inj h]
      exact .repeatedName placed fresh seen
    · intro h
      cases h with
      | @repeatedName front h placed' fresh' seen' =>
        rw [(repeatedName?_eq_some List.nodup_nil).2 ⟨front, h, placed', fresh', seen', rfl⟩] at again
        rw [Option.some.inj again]
      | secondWriter names => exact absurd names repeated
      | missingWriter names => exact absurd names repeated
      | lateWriter names => exact absurd names repeated
  | none =>
    have names := repeatedName?_none.1 again
    rw [assemble_of_names names, bind_error_iff]
    constructor
    · rintro (failed | ⟨ws, found, rest⟩)
      · obtain ⟨before, e, flag, first, w, hw, writes, rfl⟩ := writers_error_iff.1 failed
        exact .secondWriter names first hw writes
      · obtain ⟨sole, rfl⟩ := writers_ok_iff.1 found
        rcases bind_error_iff.1 rest with failed | ⟨_, -, done⟩
        · obtain ⟨before, e, flag, first, ⟨nowhere, rfl⟩ | ⟨w, hw, writes, rfl⟩⟩ := (checkReads_error_iff sole).1 failed
          · exact .missingWriter names sole first nowhere
          · exact .lateWriter names sole first hw writes
        · cases done
    · intro h
      cases h with
      | @repeatedName front h placed' fresh' seen' =>
        rw [(repeatedName?_eq_some List.nodup_nil).2 ⟨front, h, placed', fresh', seen', rfl⟩] at again
        cases again
      | secondWriter _ first earlier writes =>
        exact .inl (writers_error_iff.2 ⟨_, _, _, first, _, earlier, writes, rfl⟩)
      | missingWriter _ sole first nowhere =>
        refine .inr ⟨_, writers_ok_iff.2 ⟨sole, rfl⟩, bind_error_iff.2 (.inl ?_)⟩
        exact (checkReads_error_iff sole).2 ⟨_, _, _, first, .inl ⟨nowhere, rfl⟩⟩
      | lateWriter _ sole first listed writes =>
        refine .inr ⟨_, writers_ok_iff.2 ⟨sole, rfl⟩, bind_error_iff.2 (.inl ?_)⟩
        exact (checkReads_error_iff sole).2 ⟨_, _, _, first, .inr ⟨_, listed, writes, rfl⟩⟩

/-- Assembly accepts exactly the well-formed lists of groups. It keeps them as they are, so the rules are the
manipulators of all fragments in order. Of any other list it reports the first fault. -/
theorem assemble_decides (groups : List Group) :
    (∀ r, assemble groups = .ok r ↔ WellFormed groups ∧ r = ⟨groups⟩) ∧
    (∀ err, assemble groups = .error err ↔ Fault groups err) ∧
    (⟨groups⟩ : RuleSet).manipulators = (groups.flatMap (·.fragments)).flatMap (·.manipulators) :=
  ⟨fun _ => assemble_ok_iff, fun _ => assemble_error_iff, manipulators_eq ⟨groups⟩⟩

end RuleSet

end KeyRules
