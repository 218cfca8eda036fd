import KeyRules.CommandLine.Options
import KeyRules.Config.Basic
import KeyRules.Karabiner.Lowering
import KeyRules.Karabiner.Profile

/-!
# Command line runs

A run loads a rule file, compiles it, and then checks it only, prints the lowered rules, or writes them into
a profile. Files are read through a function, and a run writes at most one.
-/

namespace KeyRules.CommandLine

open Karabiner

/-- What every path holds. -/
abbrev Files := String → Config.Contents

def Files.write (files : Files) (path text : String) : Files :=
  fun p => if p = path then .ok text else files p

/-- Why a profile cannot be updated. -/
inductive UpdateError where
  | io (cause : ReadError)
  | json (cause : Json.SyntaxError)
  | profile (cause : ProfileError)
  deriving DecidableEq, Repr

def UpdateError.message : UpdateError → String
  | io cause => "IO error: " ++ cause.message
  | json cause => "JSON error: " ++ cause.message
  | profile cause => cause.message

/-- The new text of a configuration file whose profile gets rules. -/
def updatedText (contents : Config.Contents) (profile : String) (rules : List Json) :
    Except UpdateError String :=
  match contents with
  | .error e => .error (.io e)
  | .ok text =>
    match Json.read text with
    | .error e => .error (.json e)
    | .ok config =>
      match replaceRules config profile rules with
      | .error e => .error (.profile e)
      | .ok changed => .ok (fileText changed)

inductive Failure where
  | noHome
  | load (path : String) (cause : ConfigError)
  | compile (path : String) (cause : ConfigError)
  | update (path : String) (cause : UpdateError)
  deriving DecidableEq, Repr

/-- An error and the one behind it. -/
def configCauses (e : ConfigError) : List String :=
  match e with
  | .io cause => [e.message, cause.message]
  | .rule _ _ cause => [e.message, cause.message]
  | _ => [e.message]

def updateCauses (e : UpdateError) : List String :=
  match e with
  | .io cause => [e.message, cause.message]
  | .json cause => [e.message, cause.message]
  | .profile _ => [e.message]

/-- What went wrong, and the causes. -/
def Failure.parts : Failure → String × List String
  | noHome => ("could not determine the home directory", [])
  | load path cause => ("failed to load " ++ path, configCauses cause)
  | compile path cause => ("failed to compile " ++ path, configCauses cause)
  | update path cause => ("failed to update " ++ path, updateCauses cause)

/-- A text behind a mark, with its further lines indented as far. -/
def hanging (mark : String) (text : String) : String :=
  mark ++ String.ofList (text.toList.flatMap fun c =>
    if c = '\n' then '\n' :: List.replicate mark.length ' ' else [c])

/-- One cause stands alone, several are numbered. -/
def causeLines : List String → List String
  | [cause] => [hanging "    " cause]
  | causes => causes.zipIdx.map fun (cause, index) => hanging ("    " ++ toString index ++ ": ") cause

def Failure.report (f : Failure) : String :=
  let (text, causes) := f.parts
  let tail := if causes.isEmpty then "" else "\n\nCaused by:\n" ++ "\n".intercalate (causeLines causes)
  "Error: " ++ text ++ tail ++ "\n"

/-- A file that a run writes, and how many rules it puts there. -/
structure Written where
  path : String
  text : String
  ruleCount : Nat
  deriving DecidableEq, Repr

/-- What a run did. -/
structure Success where
  stdout : String
  written : Option Written := none
  deriving DecidableEq, Repr

/-- A path that was given, or one below the home directory. -/
def pathOr (given : Option String) (home : Option String) (below : String) : Except Failure String :=
  match given, home with
  | some path, _ => .ok path
  | none, some directory => .ok (directory ++ "/" ++ below)
  | none, none => .error .noHome

def configPath (home : Option String) (o : Options) : Except Failure String :=
  pathOr o.config home ".config/kbts/kbts.toml"

def karabinerPath (home : Option String) (o : Options) : Except Failure String :=
  pathOr o.karabinerConfig home ".config/karabiner/karabiner.json"

def compiledRules (files : Files) (path : String) : Except Failure RuleSet :=
  match Config.ofFile (files path) with
  | .error e => .error (.load path e)
  | .ok config =>
    match config.compile with
    | .error e => .error (.compile path e)
    | .ok r => .ok r

/-- Writes lowered rules into a profile. -/
def updateProfile (home : Option String) (files : Files) (o : Options) (lowered : List Json) :
    Except Failure Success := do
  let path ← karabinerPath home o
  match updatedText (files path) o.profileInUse lowered with
  | .error e => throw (.update path e)
  | .ok text =>
    return {
      stdout := "Profile '" ++ o.profileInUse ++ "' updated with " ++ toString lowered.length
        ++ " rules\n"
      written := some ⟨path, text, lowered.length⟩ }

/-- A run with understood options. A check wins over a dry run, and both over writing. -/
def perform (home : Option String) (files : Files) (o : Options) : Except Failure Success := do
  let path ← configPath home o
  let r ← compiledRules files path
  if o.checkConfig then return { stdout := "Configuration is valid\n" }
  let lowered := rules r
  if o.isDryRun then return { stdout := (Json.array lowered).pretty ++ "\n" }
  updateProfile home files o lowered

def versionText : String := "kbts 0.1.0\n"

def usage : String := "Usage: kbts [OPTIONS]\n"

def helpText : String :=
  "Compile tap-hold, chord, double-tap and layer rules for Karabiner-Elements\n\n" ++ usage ++ "\n"
    ++ "Options:\n"
    ++ "  -c, --config <CONFIG>          TOML rule file (default: ~/.config/kbts/kbts.toml)\n"
    ++ "  -p, --profile <PROFILE>        Karabiner-Elements profile name [default: --dry-run]\n"
    ++ "      --dry-run                  Print the rules as JSON instead of writing them\n"
    ++ "      --karabiner-config <PATH>  karabiner.json to update "
    ++ "(default: ~/.config/karabiner/karabiner.json)\n"
    ++ "      --check-config             Validate the rule file and exit\n"
    ++ "  -v, --verbose                  Enable debug logging\n"
    ++ "  -h, --help                     Print help\n"
    ++ "  -V, --version                  Print version\n"

/-! ## Reports -/

def compileReports (path : String) (config : Config) : List Message :=
  config.reports
    ++ (match config.compile with
      | .ok r => [⟨.debug, "compiled " ++ toString r.groups.length ++ " groups from " ++ path⟩]
      | .error _ => [])

def ruleFileReports (home : Option String) (files : Files) (o : Options) : List Message :=
  match configPath home o with
  | .error _ => []
  | .ok path =>
    match Config.ofFile (files path) with
    | .error _ => []
    | .ok config => compileReports path config

def reports (home : Option String) (files : Files) (o : Options) : List Message :=
  ruleFileReports home files o
    ++ (match perform home files o with
      | .ok ⟨_, some w⟩ => [writtenReport w.path o.profileInUse w.ruleCount]
      | _ => [])

/-- The least severe level that a run shows. -/
def shownLevel (o : Options) : Level := if o.verbose then .debug else .info

/-! ## Outcomes -/

/-- The exit code, the two output streams and the files afterwards. -/
structure Outcome where
  code : Nat
  stdout : String
  stderr : String
  files : Files

def filesAfter (files : Files) : Option Written → Files
  | none => files
  | some w => files.write w.path w.text

def outcomeOf (files : Files) : Except Failure Success → Outcome
  | .ok s => ⟨0, s.stdout, "", filesAfter files s.written⟩
  | .error f => ⟨1, "", f.report, files⟩

def run (home : Option String) (files : Files) (arguments : List String) : Outcome :=
  match readArguments arguments with
  | .run o => outcomeOf files (perform home files o)
  | .help => ⟨0, helpText, "", files⟩
  | .version => ⟨0, versionText, "", files⟩
  | .misuse => ⟨2, "", "error: unexpected arguments\n\n" ++ usage, files⟩

end KeyRules.CommandLine
