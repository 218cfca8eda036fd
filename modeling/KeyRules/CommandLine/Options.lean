/-!
# Command line options

Options are read from left to right. A value may be attached to its option or follow it, single letters may
be joined, and no option may come twice. There are no other arguments.
-/

namespace KeyRules.CommandLine

/-- The profile name that stands for printing instead of writing. -/
def dryRunProfile : String := "--dry-run"

structure Options where
  config : Option String := none
  profile : Option String := none
  dryRun : Bool := false
  karabinerConfig : Option String := none
  checkConfig : Bool := false
  verbose : Bool := false
  deriving DecidableEq, Repr

namespace Options

def profileInUse (o : Options) : String := o.profile.getD dryRunProfile

def isDryRun (o : Options) : Bool := o.dryRun || o.profileInUse = dryRunProfile

end Options

inductive ValueOption where
  | config
  | profile
  | karabinerConfig
  deriving DecidableEq, Repr

inductive Switch where
  | dryRun
  | checkConfig
  | verbose
  | help
  | version
  deriving DecidableEq, Repr

inductive Request where
  | run (options : Options)
  | help
  | version
  /-- The arguments make no sense. -/
  | misuse
  deriving DecidableEq, Repr

inductive OptionName where
  | value (option : ValueOption)
  | switch (option : Switch)
  deriving DecidableEq, Repr

def longNames : List (String × OptionName) := [
  ("config", .value .config), ("profile", .value .profile), ("dry-run", .switch .dryRun),
  ("karabiner-config", .value .karabinerConfig), ("check-config", .switch .checkConfig),
  ("verbose", .switch .verbose), ("help", .switch .help), ("version", .switch .version)]

def shortName? : Char → Option OptionName
  | 'c' => some (.value .config)
  | 'p' => some (.value .profile)
  | 'v' => some (.switch .verbose)
  | 'h' => some (.switch .help)
  | 'V' => some (.switch .version)
  | _ => none

/-- How far the arguments are understood: the options so far and an option that waits for its value, or an
early end. -/
inductive Progress where
  | more (options : Options) (pending : Option ValueOption)
  | done (request : Request)
  deriving DecidableEq, Repr

/-- Sets an option once; a path must not be empty. -/
def setValue (o : Options) (option : ValueOption) (value : String) : Progress :=
  match option with
  | .config =>
    if o.config.isSome ∨ value.isEmpty then .done .misuse else .more { o with config := some value } none
  | .profile =>
    if o.profile.isSome then .done .misuse else .more { o with profile := some value } none
  | .karabinerConfig =>
    if o.karabinerConfig.isSome ∨ value.isEmpty then .done .misuse
    else .more { o with karabinerConfig := some value } none

def setSwitch (o : Options) : Switch → Progress
  | .dryRun => if o.dryRun then .done .misuse else .more { o with dryRun := true } none
  | .checkConfig => if o.checkConfig then .done .misuse else .more { o with checkConfig := true } none
  | .verbose => if o.verbose then .done .misuse else .more { o with verbose := true } none
  | .help => .done .help
  | .version => .done .version

/-- An option by its long name, with the value after an equals sign if there is one. -/
def readLong (o : Options) (name : List Char) (value : Option (List Char)) : Progress :=
  match longNames.lookup (String.ofList name), value with
  | none, _ => .done .misuse
  | some (.value option), some v => setValue o option (String.ofList v)
  | some (.value option), none => .more o (some option)
  | some (.switch _), some _ => .done .misuse
  | some (.switch option), none => setSwitch o option

/-- The value attached to a single letter; an equals sign in front does not count. -/
def attached : List Char → Option (List Char)
  | [] => none
  | '=' :: rest => some rest
  | rest => some rest

/-- Joined single letters. The first option with a value takes what follows it. -/
def readShort (o : Options) : List Char → Progress
  | [] => .more o none
  | c :: rest =>
    match shortName? c with
    | none => .done .misuse
    | some (.value option) =>
      match attached rest with
      | some v => setValue o option (String.ofList v)
      | none => .more o (some option)
    | some (.switch option) =>
      match setSwitch o option with
      | .more o _ => readShort o rest
      | .done request => .done request

/-- One argument that is not the value of an option before it. -/
def readArgument (o : Options) (argument : List Char) : Progress :=
  match argument with
  | '-' :: '-' :: rest =>
    let name := rest.takeWhile (· != '=')
    readLong o name ((rest.drop name.length).tail?)
  | '-' :: c :: rest => readShort o (c :: rest)
  | _ => .done .misuse

/-- An argument that can be the value of an option before it. The profile may start with a hyphen. -/
def isValueFor (option : ValueOption) (argument : List Char) : Bool :=
  match option, argument with
  | .profile, _ => true
  | _, '-' :: _ :: _ => false
  | _, _ => true

/-- Reads the arguments after the ones that made the options so far. -/
def readFrom (o : Options) (pending : Option ValueOption) : List String → Request
  | [] => if pending.isSome then .misuse else .run o
  | argument :: rest =>
    let step :=
      match pending with
      | some option =>
        if isValueFor option argument.toList then setValue o option argument else .done .misuse
      | none =>
        if argument = "--" then .done (if rest.isEmpty then .run o else .misuse)
        else readArgument o argument.toList
    match step with
    | .more o pending => readFrom o pending rest
    | .done request => request

def readArguments (arguments : List String) : Request := readFrom {} none arguments

end KeyRules.CommandLine
