import KeyRules.CommandLine.Run
import KeyRules.Proofs.Compiled
import KeyRules.Proofs.Passes

/-!
# Files after a run

A run that fails changes no file, nor does one that is asked to check, to print, or to write into the default profile.
Any other run has gone through all of a `Rewrite`: its rule file was read and compiled, and the file to update was read,
parsed and given the lowered rules. Then that file holds the result, and every other file what it held before
(`files_after_run`).
-/

namespace KeyRules.CommandLine

open Karabiner

/-- Options of a run that only reads: it checks the rule file, or prints the rules, or has the profile that stands for
printing. -/
def Options.ReadOnly (o : Options) : Prop := o.checkConfig = true ∨ o.dryRun = true ∨ o.profileInUse = dryRunProfile

/-- The rule file of a run, which is understood and compiles. -/
structure Loaded (home : Option String) (files : Files) (o : Options) where
  source : String
  config : Config
  ruleSet : RuleSet
  located : configPath home o = .ok source
  understood : Config.ofFile (files source) = .ok config
  compiled : config.compile = .ok ruleSet

/-- What a run that writes has found and made: the file to update, its text, the value of the text, and that value with
the lowered rules in the profile. -/
structure Rewrite (home : Option String) (files : Files) (o : Options) extends Loaded home files o where
  target : String
  text : String
  former : Json
  changed : Json
  selected : karabinerPath home o = .ok target
  held : files target = .ok text
  parsed : Json.read text = .ok former
  replaced : replaceRules former o.profileInUse (rules ruleSet) = .ok changed

variable {home : Option String} {files : Files} {o : Options}

theorem Options.readOnly_iff : o.ReadOnly ↔ o.checkConfig = true ∨ o.isDryRun = true := by
  rw [ReadOnly, isDryRun, Bool.or_eq_true, decide_eq_true_iff]

/-! ## Steps of a run -/

theorem compiledRules_ok_iff {path : String} {r : RuleSet} :
    compiledRules files path = .ok r ↔ ∃ c, Config.ofFile (files path) = .ok c ∧ c.compile = .ok r := by
  unfold compiledRules
  cases Config.ofFile (files path) with
  | error e => simp
  | ok config =>
    dsimp only
    cases compiled : config.compile with
    | error e => simp [compiled]
    | ok q => simp [compiled]

theorem updatedText_ok_iff {contents : Config.Contents} {profile text : String} {lowered : List Json} :
    updatedText contents profile lowered = .ok text ↔
      ∃ old former changed, contents = .ok old ∧ Json.read old = .ok former ∧
        replaceRules former profile lowered = .ok changed ∧ text = fileText changed := by
  unfold updatedText
  cases contents with
  | error e => simp
  | ok old =>
    dsimp only
    cases parsed : Json.read old with
    | error e => simp [parsed]
    | ok former =>
      dsimp only
      cases replaced : replaceRules former profile lowered with
      | error e => simp [parsed, replaced]
      | ok changed => simp [parsed, replaced, eq_comm]

theorem Loaded.perform_eq (l : Loaded home files o) :
    perform home files o =
      if o.checkConfig then .ok { stdout := "Configuration is valid\n" }
      else if o.isDryRun then .ok { stdout := (Json.array (rules l.ruleSet)).pretty ++ "\n" }
      else updateProfile home files o (rules l.ruleSet) := by
  have found : compiledRules files l.source = .ok l.ruleSet :=
    compiledRules_ok_iff.2 ⟨l.config, l.understood, l.compiled⟩
  rw [perform, l.located]
  show (compiledRules files l.source >>= _) = _
  rw [found]
  rfl

theorem loaded_of_perform {s : Success} (done : perform home files o = .ok s) : Nonempty (Loaded home files o) := by
  obtain ⟨source, located, rest⟩ := bind_ok_iff.1 done
  obtain ⟨r, found, -⟩ := bind_ok_iff.1 rest
  obtain ⟨config, understood, compiled⟩ := compiledRules_ok_iff.1 found
  exact ⟨⟨source, config, r, located, understood, compiled⟩⟩

theorem updateProfile_ok_iff {lowered : List Json} {s : Success} :
    updateProfile home files o lowered = .ok s ↔
      ∃ path text, karabinerPath home o = .ok path ∧ updatedText (files path) o.profileInUse lowered = .ok text ∧
        s = { stdout := "Profile '" ++ o.profileInUse ++ "' updated with " ++ toString lowered.length ++ " rules\n"
              written := some ⟨path, text, lowered.length⟩ } := by
  rw [updateProfile, bind_ok_iff]
  refine exists_congr fun path => ?_
  cases updated : updatedText (files path) o.profileInUse lowered with
  | error e =>
    constructor
    · rintro ⟨-, failed⟩
      cases failed
    · rintro ⟨text, -, failed, -⟩
      cases failed
  | ok text =>
    constructor
    · rintro ⟨selected, done⟩
      exact ⟨text, selected, rfl, (Except.ok.inj done).symm⟩
    · rintro ⟨other, selected, same, rfl⟩
      cases same
      exact ⟨selected, rfl⟩

/-- An update succeeds exactly if all of a rewrite is there. -/
theorem updateProfile_rewrites (l : Loaded home files o) {s : Success}
    (done : updateProfile home files o (rules l.ruleSet) = .ok s) :
    ∃ w : Rewrite home files o, s.written = some ⟨w.target, fileText w.changed, (rules l.ruleSet).length⟩ := by
  obtain ⟨path, text, selected, updated, rfl⟩ := updateProfile_ok_iff.1 done
  obtain ⟨old, former, changed, held, parsed, replaced, rfl⟩ := updatedText_ok_iff.1 updated
  exact ⟨⟨l, path, old, former, changed, selected, held, parsed, replaced⟩, rfl⟩

theorem Rewrite.updateProfile_ok (w : Rewrite home files o) :
    ∃ s, updateProfile home files o (rules w.ruleSet) = .ok s ∧
      s.written = some ⟨w.target, fileText w.changed, (rules w.ruleSet).length⟩ := by
  have updated : updatedText (files w.target) o.profileInUse (rules w.ruleSet) = .ok (fileText w.changed) :=
    updatedText_ok_iff.2 ⟨w.text, w.former, w.changed, w.held, w.parsed, w.replaced, rfl⟩
  exact ⟨_, updateProfile_ok_iff.2 ⟨w.target, fileText w.changed, w.selected, updated, rfl⟩, rfl⟩

/-! ## Outcomes -/

/-- A run that only reads writes nothing, and succeeds if its rule file is loaded. -/
theorem Loaded.reads (l : Loaded home files o) (readOnly : o.ReadOnly) :
    ∃ s, perform home files o = .ok s ∧ s.written = none := by
  rw [l.perform_eq]
  by_cases check : o.checkConfig = true
  · exact ⟨_, if_pos check, rfl⟩
  · rw [if_neg check, if_pos ((Options.readOnly_iff.1 readOnly).resolve_left check)]
    exact ⟨_, rfl, rfl⟩

theorem Loaded.updates (l : Loaded home files o) (writes : ¬o.ReadOnly) :
    perform home files o = updateProfile home files o (rules l.ruleSet) := by
  rw [Options.readOnly_iff, not_or] at writes
  rw [l.perform_eq, if_neg writes.1, if_neg writes.2]

theorem Rewrite.performs (w : Rewrite home files o) (writes : ¬o.ReadOnly) :
    ∃ s, perform home files o = .ok s ∧
      s.written = some ⟨w.target, fileText w.changed, (rules w.ruleSet).length⟩ := by
  rw [w.updates writes]
  exact w.updateProfile_ok

theorem performs_iff :
    (∃ s, perform home files o = .ok s) ↔
      o.ReadOnly ∧ Nonempty (Loaded home files o) ∨ ¬o.ReadOnly ∧ Nonempty (Rewrite home files o) := by
  constructor
  · rintro ⟨s, done⟩
    obtain ⟨l⟩ := loaded_of_perform done
    by_cases readOnly : o.ReadOnly
    · exact .inl ⟨readOnly, ⟨l⟩⟩
    · obtain ⟨w, -⟩ := updateProfile_rewrites l ((l.updates readOnly).symm.trans done)
      exact .inr ⟨readOnly, ⟨w⟩⟩
  · rintro (⟨readOnly, ⟨l⟩⟩ | ⟨writes, ⟨w⟩⟩)
    · exact (l.reads readOnly).imp fun _ => And.left
    · exact (w.performs writes).imp fun _ => And.left

theorem outcomeOf_succeeds {r : Except Failure Success} : (outcomeOf files r).code = 0 ↔ ∃ s, r = .ok s := by
  cases r <;> simp [outcomeOf]

theorem outcomeOf_failed {r : Except Failure Success} (failed : (outcomeOf files r).code ≠ 0) :
    (outcomeOf files r).files = files := by
  cases r with
  | error e => rfl
  | ok s => exact absurd rfl failed

theorem files_of_readOnly (readOnly : o.ReadOnly) : (outcomeOf files (perform home files o)).files = files := by
  cases done : perform home files o with
  | error e => rfl
  | ok s =>
    obtain ⟨l⟩ := loaded_of_perform done
    obtain ⟨t, ok, nothing⟩ := l.reads readOnly
    cases ok.symm.trans done
    exact congrArg (filesAfter files) nothing

theorem Rewrite.files_after (w : Rewrite home files o) (writes : ¬o.ReadOnly) :
    (outcomeOf files (perform home files o)).files = files.write w.target (fileText w.changed) := by
  obtain ⟨s, ok, written⟩ := w.performs writes
  rw [ok]
  exact congrArg (filesAfter files) written

/-- A run that fails or only reads changes no file. A run succeeds exactly if its rule file is loaded and, unless it only
reads, all of a rewrite is there. Then the file to update holds the pretty text of the changed value, with a line break,
and every other file is as it was. -/
theorem files_after_run (home : Option String) (files : Files) (o : Options) :
    let out := outcomeOf files (perform home files o)
    (out.code ≠ 0 ∨ o.ReadOnly → out.files = files) ∧
    (out.code = 0 ↔ o.ReadOnly ∧ Nonempty (Loaded home files o) ∨ ¬o.ReadOnly ∧ Nonempty (Rewrite home files o)) ∧
    (¬o.ReadOnly → ∀ w : Rewrite home files o,
      out.files w.target = .ok (w.changed.pretty ++ "\n") ∧ ∀ path ≠ w.target, out.files path = files path) := by
  intro out
  refine ⟨fun h => h.elim outcomeOf_failed files_of_readOnly, outcomeOf_succeeds.trans performs_iff, fun writes w => ?_⟩
  rw [w.files_after writes]
  exact ⟨if_pos rfl, fun path other => if_neg other⟩

/-! ## A run on two files -/

def chordFile : String :=
  "[[group]]\nname = \"g\"\n[[group.rule]]\ntype = \"chord\"\nkeys = [\"a\", \"b\"]\naction = \"e\"\n"

def profileFile : String := "\x7b\"profiles\":[\x7b\"name\":\"work\"\x7d],\"global\":1\x7d"

def chordFiles : Files := fun path =>
  if path = "kbts.toml" then .ok chordFile
  else if path = "karabiner.json" then .ok profileFile
  else .error .notFound

def chordOptions : Options :=
  { config := some "kbts.toml", profile := some "work", karabinerConfig := some "karabiner.json" }

def chordConfig : Config :=
  ⟨[⟨"g", [.chord { keys := [keyA, keyB], action := .key keyE [], window := 50 }]⟩], none⟩

def chordRules : RuleSet := chordConfig.compile.toOption.getD ⟨[]⟩

def profileBefore : Json :=
  .object [("global", .int 1), ("profiles", .array [.object [("name", .string "work")]])]

/-- The profile gets the rules, and all members are sorted. -/
def profileAfter : Json :=
  .object [("global", .int 1), ("profiles", .array [.object
    [("complex_modifications", .object [("rules", .array ((rules chordRules).map Json.canonical))]),
      ("name", .string "work")]])]

theorem chordOptions_writes : ¬chordOptions.ReadOnly := by
  unfold Options.ReadOnly
  decide

theorem chordFile_understood : Config.ofFile (chordFiles "kbts.toml") = .ok chordConfig := by decide +kernel

theorem chordConfig_compiled : chordConfig.compile = .ok chordRules := by decide +kernel

theorem profileFile_held : chordFiles "karabiner.json" = .ok profileFile := by simp [chordFiles]

theorem profileFile_parsed : Json.read profileFile = .ok profileBefore := by
  -- the reader is evaluated on the list of characters, not on the text
  rw [Json.read, ← String.length_toList]
  simp only [profileFile, String.reduceToList, List.length_cons, List.length_nil, Nat.zero_add, Nat.reduceAdd]
  rfl

def chordRewrite : Rewrite none chordFiles chordOptions :=
  ⟨⟨"kbts.toml", chordConfig, chordRules, rfl, chordFile_understood, chordConfig_compiled⟩,
    "karabiner.json", profileFile, profileBefore, profileAfter, rfl, profileFile_held, profileFile_parsed, rfl⟩

/-- A chord is written into a profile that had no rules, and the rule file stays. -/
theorem files_after_run_chord :
    ¬chordOptions.ReadOnly ∧ (outcomeOf chordFiles (perform none chordFiles chordOptions)).code = 0 ∧
      (outcomeOf chordFiles (perform none chordFiles chordOptions)).files "karabiner.json" =
        .ok (profileAfter.pretty ++ "\n") ∧
      (outcomeOf chordFiles (perform none chordFiles chordOptions)).files "kbts.toml" = .ok chordFile := by
  have facts := files_after_run none chordFiles chordOptions
  -- what is known of the outcome suffices, so it is not evaluated
  generalize outcomeOf chordFiles (perform none chordFiles chordOptions) = out at facts ⊢
  obtain ⟨-, succeeds, written⟩ := facts
  obtain ⟨target, others⟩ := written chordOptions_writes chordRewrite
  refine ⟨chordOptions_writes, succeeds.2 (.inr ⟨chordOptions_writes, ⟨chordRewrite⟩⟩), target, ?_⟩
  have other : "kbts.toml" ≠ chordRewrite.target := by
    show "kbts.toml" ≠ "karabiner.json"
    decide
  rw [others "kbts.toml" other]
  simp [chordFiles]

end KeyRules.CommandLine
