import KeyRules.CommandLine.Run
import KeyRules.Proofs.Json.Paths

/-!
# Updating a profile

An update fails before it changes anything, or the configuration has a place for the rules of the profile
(`RulesPlace`), and then only what stands there is replaced. Whether there is a place does not depend on the rules, and
an updated configuration has the same place, so the last update counts.
-/

namespace KeyRules.Karabiner

open Json

/-- The path to the rules of the profile at a place in the list. -/
def rulesPath (i : Nat) : List Step :=
  [.member "profiles", .item i, .member "complex_modifications", .member "rules"]

/-- Where a configuration has the rules of a profile: the first profile of the name is an object, and its complex
modifications are an object or missing. -/
structure RulesPlace (profile : String) (config : Json) where
  members : List (String × Json)
  entries : List Json
  index : Nat
  entry : List (String × Json)
  modifications : List (String × Json)
  config_eq : config = object members
  profiles : member? "profiles" members = some (array entries)
  first : entries.findIdx? (isProfile profile) = some index
  placed : entries[index]? = some (object entry)
  opened : (member? "complex_modifications" entry).getD (object []) = object modifications

namespace RulesPlace
variable {profile : String} {config : Json} (place : RulesPlace profile config) (rules others : List Json)

def newModifications : Json := object (setMember "rules" (canonical (array rules)) place.modifications)

def newEntry : List (String × Json) := setMember "complex_modifications" (place.newModifications rules) place.entry

def newEntries : List Json := place.entries.set place.index (object (place.newEntry rules))

/-- The configuration with new rules. -/
def put : Json := object (setMember "profiles" (array (place.newEntries rules)) place.members)

end RulesPlace

/-! ## Edits -/

section
variable {profile : String}

theorem isProfile_object {value : Json} (found : isProfile profile value = true) :
    ∃ members, value = object members := by
  cases value with
  | object members => exact ⟨members, rfl⟩
  | _ => cases found

theorem isProfile_setMember (value : Json) (members : List (String × Json)) :
    isProfile profile (object (setMember "complex_modifications" value members)) =
      isProfile profile (object members) := by
  unfold isProfile
  rw [get?, get?, member?_setMember_ne (by decide)]

/-- Opening the complex modifications first makes no difference to what is set. -/
theorem editModifications_eq (rules : List Json) (members : List (String × Json)) :
    editModifications profile rules members =
      match (member? "complex_modifications" members).getD (object []) with
      | object modifications =>
        ⟨setMember "complex_modifications"
          (object (setMember "rules" (array (canonicalItems rules)) modifications)) members, none⟩
      | _ => ⟨members, some (.modificationsNotAnObject profile)⟩ := by
  unfold editModifications openModifications
  cases present : member? "complex_modifications" members with
  | none =>
    have made : member? "complex_modifications" (insertMember "complex_modifications" (object []) members) =
        some (object []) := by
      rw [member?_insertMember, if_pos rfl]
    simp only [Option.isSome_none, Bool.false_eq_true, if_false, made, Option.getD_none]
    rw [replaceMember_insertMember present, setMember_of_none present]
  | some value =>
    simp only [Option.isSome_some, if_true, present, Option.getD_some]
    cases value with
    | object modifications => simp only [setMember_of_some present]
    | _ => rfl

variable (profile) in
/-- The complex modifications are an object or will be one, or nothing can be put into them. -/
theorem editModifications_cases (members : List (String × Json)) :
    (∃ modifications, (member? "complex_modifications" members).getD (object []) = object modifications) ∨
      ∀ rules, editModifications profile rules members = ⟨members, some (.modificationsNotAnObject profile)⟩ := by
  cases held : (member? "complex_modifications" members).getD (object []) with
  | object modifications => exact .inl ⟨modifications, rfl⟩
  | _ => exact .inr fun rules => by rw [editModifications_eq, held]

theorem editProfile_none (rules : List Json) {entries : List Json}
    (missing : entries.findIdx? (isProfile profile) = none) :
    editProfile profile rules entries = ⟨entries, some (.notFound profile)⟩ := by
  induction entries with
  | nil => rfl
  | cons entry rest ih =>
    rw [List.findIdx?_cons] at missing
    unfold editProfile
    split at missing
    · cases missing
    · rename_i other
      rw [if_neg other, ih (Option.map_eq_none_iff.1 missing)]
      rfl

theorem editProfile_some (rules : List Json) {entries : List Json} {i : Nat} {members : List (String × Json)}
    (first : entries.findIdx? (isProfile profile) = some i) (placed : entries[i]? = some (object members)) :
    editProfile profile rules entries =
      (editModifications profile rules members).map fun changed => entries.set i (object changed) := by
  induction entries generalizing i with
  | nil => cases first
  | cons entry rest ih =>
    rw [List.findIdx?_cons] at first
    unfold editProfile
    split at first
    · rename_i named
      cases first
      cases placed
      rw [if_pos named]
      rfl
    · rename_i other
      obtain ⟨j, found, rfl⟩ := Option.map_eq_some_iff.1 first
      rw [if_neg other, ih found placed]
      rfl

theorem editRules_profiles (rules : List Json) {members : List (String × Json)} {entries : List Json}
    (profiles : member? "profiles" members = some (array entries)) :
    editRules (object members) profile rules =
      (editProfile profile rules entries).map fun changed =>
        object (replaceMember "profiles" (array changed) members) := by
  simp only [editRules, profiles, Option.bind_some, array?]

theorem editRules_failed {rules : List Json} {members : List (String × Json)} {entries : List Json} {e : ProfileError}
    (profiles : member? "profiles" members = some (array entries))
    (failed : editProfile profile rules entries = ⟨entries, some e⟩) :
    editRules (object members) profile rules = ⟨object members, some e⟩ := by
  rw [editRules_profiles rules profiles, failed, Edited.map, replaceMember_self profiles]

end

/-! ## Places -/

namespace RulesPlace
variable {profile : String} {config : Json} (place : RulesPlace profile config) (rules others : List Json)

theorem edited : editRules config profile rules = ⟨place.put rules, none⟩ := by
  obtain ⟨members, entries, i, entry, modifications, rfl, profiles, first, placed, opened⟩ := place
  rw [editRules_profiles rules profiles, editProfile_some rules first placed, editModifications_eq, opened]
  simp only [put, newEntries, newEntry, newModifications, Edited.map, setMember_of_some profiles, canonical]

def again : RulesPlace profile (place.put rules) where
  members := setMember "profiles" (array (place.newEntries rules)) place.members
  entries := place.newEntries rules
  index := place.index
  entry := place.newEntry rules
  modifications := setMember "rules" (canonical (array rules)) place.modifications
  config_eq := rfl
  profiles := member?_setMember_self
  first := by
    -- the profile keeps its name, and those before it are as they were
    obtain ⟨inside, named, others⟩ := List.findIdx?_eq_some_iff_getElem.1 place.first
    refine List.findIdx?_eq_some_iff_getElem.2 ⟨by rwa [newEntries, List.length_set], ?_, fun j before => ?_⟩
    · have old : place.entries[place.index] = object place.entry :=
        Option.some.inj ((List.getElem?_eq_getElem inside).symm.trans place.placed)
      rw [old] at named
      simpa only [newEntries, List.getElem_set_self, newEntry, isProfile_setMember] using named
    · simpa only [newEntries, List.getElem_set_ne (Nat.ne_of_gt before)] using others j before
  placed := List.getElem?_set_self (List.getElem?_eq_some_iff.1 place.placed).1
  opened := by
    rw [newEntry, member?_setMember_self]
    rfl

theorem put_again : (place.again rules).put others = place.put others := by
  simp only [put, newEntries, newEntry, newModifications, again, setMember_setMember, List.set_set]

theorem at?_put : (place.put rules).at? (rulesPath place.index) = some (canonical (array rules)) := by
  have placed : (array (place.newEntries rules)).child? (.item place.index) = some (object (place.newEntry rules)) :=
    (place.again rules).placed
  rw [put, rulesPath, at?_setMember_self, at?, placed, Option.bind_some, newEntry, at?_setMember_self, newModifications,
    at?_setMember_self, at?]

theorem differsOnlyAt_put : DiffersOnlyAt (rulesPath place.index) config (place.put rules) := by
  have modifications : DiffersOnlyAt [.member "complex_modifications", .member "rules"] (object place.entry)
      (object (place.newEntry rules)) :=
    .setMember (fun _ below => at?_member_getD place.opened below) differsOnlyAt_setMember
  have entries := modifications.item place.placed
  have config := entries.setMember fun _ _ => at?_member place.profiles
  rw [← place.config_eq] at config
  exact config

end RulesPlace

/-- Without a place for the rules an update fails, and changes nothing. -/
theorem place_or_failed (profile : String) (config : Json) :
    Nonempty (RulesPlace profile config) ∨
      ∃ e, (∀ other, e ≠ .notAnObject other) ∧ ∀ rules, editRules config profile rules = ⟨config, some e⟩ := by
  cases config with
  | object members =>
    cases profiles : (member? "profiles" members).bind array? with
    | none => exact .inr ⟨.missingProfiles, by simp, fun rules => by simp only [editRules, profiles]⟩
    | some entries =>
      have profiles : member? "profiles" members = some (array entries) := by
        obtain ⟨value, present, list⟩ := Option.bind_eq_some_iff.1 profiles
        rw [present, array?_eq_some list]
      cases first : entries.findIdx? (isProfile profile) with
      | none =>
        exact .inr ⟨.notFound profile, by simp, fun rules => editRules_failed profiles (editProfile_none rules first)⟩
      | some i =>
        obtain ⟨inside, named, -⟩ := List.findIdx?_eq_some_iff_getElem.1 first
        obtain ⟨entry, held⟩ := isProfile_object named
        have placed : entries[i]? = some (object entry) := held ▸ List.getElem?_eq_getElem inside
        rcases editModifications_cases profile entry with ⟨modifications, opened⟩ | failed
        · exact .inl ⟨⟨members, entries, i, entry, modifications, rfl, profiles, first, placed, opened⟩⟩
        · -- the edit fails inside the profile, so the list gets back what it had
          refine .inr ⟨.modificationsNotAnObject profile, by simp, fun rules => editRules_failed profiles ?_⟩
          rw [editProfile_some rules first placed, failed, Edited.map, ← held, List.set_getElem_self]
  | _ => exact .inr ⟨.missingProfiles, by simp, fun rules => rfl⟩

/-! ## Updates -/

/-- The files with new rules in one of them, which stays if it cannot be read, parsed or edited. -/
def updatedFiles (files : CommandLine.Files) (path profile : String) (rules : List Json) : CommandLine.Files :=
  match files path with
  | .error _ => files
  | .ok text =>
    match Json.read text with
    | .error _ => files
    | .ok config =>
      match editRules config profile rules with
      | ⟨_, some _⟩ => files
      | ⟨changed, none⟩ => files.write path (fileText changed)

theorem updatedText_files (files : CommandLine.Files) (path profile : String) (rules : List Json) :
    (match CommandLine.updatedText (files path) profile rules with
      | .error _ => files
      | .ok text => files.write path text) = updatedFiles files path profile rules := by
  unfold CommandLine.updatedText updatedFiles
  cases files path with
  | error e => rfl
  | ok text =>
    dsimp only
    cases Json.read text with
    | error e => rfl
    | ok config =>
      dsimp only
      rw [replaceRules]
      obtain ⟨changed, _ | e⟩ := editRules config profile rules <;> rfl

theorem updateProfile_files (home : Option String) (files : CommandLine.Files) (o : CommandLine.Options)
    (rules : List Json) :
    (CommandLine.outcomeOf files (CommandLine.updateProfile home files o rules)).files =
      match CommandLine.karabinerPath home o with
      | .error _ => files
      | .ok path => updatedFiles files path o.profileInUse rules := by
  unfold CommandLine.updateProfile
  cases CommandLine.karabinerPath home o with
  | error e => rfl
  | ok path =>
    dsimp only
    rw [← updatedText_files]
    simp only [bind, Except.bind]
    cases CommandLine.updatedText (files path) o.profileInUse rules <;> rfl

/-- An update fails if there is no place for the rules, never because the profile is no object, and then it changes
nothing. Otherwise it changes only what stands at the place, and of two updates the second one counts. A file is written
only after its text was read and parsed and the rules were replaced. -/
theorem update_in_place (config : Json) (profile : String) (rules others : List Json) (home : Option String)
    (files : CommandLine.Files) (o : CommandLine.Options) :
    (match editRules config profile rules with
      | ⟨left, some e⟩ => left = config ∧ ¬Nonempty (RulesPlace profile config) ∧ ∀ other, e ≠ .notAnObject other
      | ⟨changed, none⟩ =>
        (∃ place : RulesPlace profile config, changed.at? (rulesPath place.index) = some (canonical (array rules)) ∧
          DiffersOnlyAt (rulesPath place.index) config changed) ∧
        editRules changed profile others = editRules config profile others) ∧
      (CommandLine.outcomeOf files (CommandLine.updateProfile home files o rules)).files =
        match CommandLine.karabinerPath home o with
        | .error _ => files
        | .ok path => updatedFiles files path o.profileInUse rules := by
  refine ⟨?_, updateProfile_files home files o rules⟩
  rcases place_or_failed profile config with ⟨⟨place⟩⟩ | ⟨e, named, failed⟩
  · rw [place.edited rules, place.edited others]
    refine ⟨⟨place, place.at?_put rules, place.differsOnlyAt_put rules⟩, ?_⟩
    rw [(place.again rules).edited others, place.put_again]
  · have nowhere : ¬Nonempty (RulesPlace profile config) := fun ⟨place⟩ =>
      Option.some_ne_none e (congrArg Edited.failure ((failed rules).symm.trans (place.edited rules)))
    rw [failed rules]
    exact ⟨rfl, nowhere, named⟩

/-- The first of two profiles of a name gets complex modifications, in order among its members. -/
example :
    editRules (object [("profiles", array [object [("name", string "a")], object [("name", string "a")]])]) "a" [null] =
      ⟨object [("profiles", array [
        object [("complex_modifications", object [("rules", array [null])]), ("name", string "a")],
        object [("name", string "a")]])], none⟩ := rfl

end KeyRules.Karabiner
