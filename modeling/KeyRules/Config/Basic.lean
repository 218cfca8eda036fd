import KeyRules.Binding
import KeyRules.Config.Tables
import KeyRules.RuleSet
import KeyRules.Toml.Reader

/-!
# Configurations

A configuration is a rule file whose spellings are understood: named groups of bindings and, if the file
gives one, their order. Compiling turns every binding into a fragment and assembles the groups.
-/

namespace KeyRules

/-- Why a file cannot be read. -/
inductive ReadError where
  | notFound
  | notDirectory
  | isDirectory
  | nameTooLong
  | notText
  deriving DecidableEq, Repr

def ReadError.message : ReadError → String
  | notFound => "No such file or directory (os error 2)"
  | notDirectory => "Not a directory (os error 20)"
  | isDirectory => "Is a directory (os error 21)"
  | nameTooLong => "File name too long (os error 36)"
  | notText => "stream did not contain valid UTF-8"

inductive ConfigError where
  | io (cause : ReadError)
  /-- The text is no TOML document. -/
  | grammar
  /-- The document has values of the wrong shape. -/
  | shape (cause : Config.DecodeError)
  | rule (group : String) (index : Nat) (cause : RuleError)
  | compile (cause : RuleError)
  deriving DecidableEq, Repr

def ConfigError.message : ConfigError → String
  | io cause => "IO error: " ++ cause.message
  | grammar => "TOML parse error"
  | shape cause => "TOML parse error: " ++ cause.message
  | rule group index cause =>
    "group '" ++ group ++ "', rule " ++ toString index ++ ": " ++ cause.message
  | compile cause => cause.message

structure GroupConfig where
  name : String
  bindings : List Binding
  deriving DecidableEq, Repr

structure Config where
  /-- Groups in declaration order. -/
  groups : List GroupConfig
  /-- The order of precedence, declaration order if there is none. -/
  order : Option (List String)
  deriving DecidableEq, Repr

namespace Config

/-! ## From tables to bindings -/

def ActionTable.toAction : ActionTable → Except RuleError Action
  | name spelling => Action.parse spelling
  | paste text => .ok (.paste text)
  | key spelling modifiers => Action.parseWith spelling modifiers

def flagOf (spelling : Option String) : Except RuleError (Option Flag) := spelling.mapM Flag.parse

/-- The tap defaults to the key itself. -/
def TapHoldTable.toTapHold (t : TapHoldTable) (defaults : Defaults) : Except RuleError TapHold := do
  let key ← Key.parse t.key
  let tap ←
    match t.tap with
    | some a => a.toAction
    | none => pure (.key key [])
  return {
    key := key
    tap := tap
    hold := ← t.hold.toAction
    timeout := t.timeout.getD defaults.tapHoldTimeout
    priority := t.priority.getD defaults.priority
    flag := ← flagOf t.flag
    gate := ← flagOf t.gate }

def ChordTable.toChord (t : ChordTable) (defaults : Defaults) : Except RuleError Chord := do
  return {
    keys := ← Key.parseAll t.keys
    action := ← t.action.toAction
    window := t.window.getD defaults.chordWindow
    gate := ← flagOf t.gate }

def DoubleTapTable.toDoubleTap (t : DoubleTapTable) (defaults : Defaults) :
    Except RuleError DoubleTap := do
  return {
    key := ← Key.parse t.key
    interval := t.interval.getD defaults.doubleTapInterval
    action := ← t.action.toAction
    singleTap := ← t.singleTap.mapM ActionTable.toAction
    flag := ← flagOf t.flag }

def BindingTable.toEntry (t : BindingTable) : Except RuleError (Key × Action) := do
  return (← Key.parse t.source, ← t.target.toAction)

/-- The flag defaults to `<key>_layer`. Mapped keys come before the bindings. -/
def LayerTable.toLayer (t : LayerTable) (defaults : Defaults) : Except RuleError Layer := do
  let key ← Key.parse t.key
  let flag := (← flagOf t.flag).getD ⟨key.name ++ "_layer"⟩
  let modifiers ← Modifier.parseAll t.mapModifiers
  let mapped := (← Key.parseAll t.mapKeys).map fun k => (k, Action.withModifiers k modifiers)
  let bindings ← t.bindings.mapM BindingTable.toEntry
  let mode :=
    match t.mode with
    | .hold => LayerMode.hold
    | .simultaneous => LayerMode.simultaneous (t.threshold.getD defaults.simlayerThreshold)
  return ⟨key, flag, mode, mapped ++ bindings⟩

def RuleTable.toBinding (defaults : Defaults) : RuleTable → Except RuleError Binding
  | tapHold t => Binding.tapHold <$> t.toTapHold defaults
  | chord t => Binding.chord <$> t.toChord defaults
  | doubleTap t => Binding.doubleTap <$> t.toDoubleTap defaults
  | layer t => Binding.layer <$> t.toLayer defaults

def atRule (group : String) (index : Nat) : Except RuleError α → Except ConfigError α
  | .ok a => .ok a
  | .error e => .error (.rule group index e)

def GroupTable.toGroup (defaults : Defaults) (t : GroupTable) : Except ConfigError GroupConfig := do
  let bindings ← t.rules.zipIdx.mapM fun (r, index) => atRule t.name index (r.toBinding defaults)
  return ⟨t.name, bindings⟩

/-- The configuration of a rule file. -/
def ofDocument (d : Document) : Except ConfigError Config := do
  return ⟨← d.groups.mapM (GroupTable.toGroup d.defaults), d.order⟩

def parse (text : String) : Except ConfigError Config :=
  match Toml.read? text with
  | none => .error .grammar
  | some entries =>
    match document entries with
    | .error e => .error (.shape e)
    | .ok d => ofDocument d

/-- What a file holds, or why it cannot be read. -/
abbrev Contents := Except ReadError String

def decodeText (bytes : ByteArray) : Contents :=
  match String.fromUTF8? bytes with
  | some text => .ok text
  | none => .error .notText

def ofFile : Contents → Except ConfigError Config
  | .error e => .error (.io e)
  | .ok text => parse text

/-! ## Compiling -/

def compileGroup (g : GroupConfig) : Except ConfigError Group := do
  let fragments ← g.bindings.zipIdx.mapM fun (b, index) => atRule g.name index b.compile
  return ⟨g.name, fragments⟩

/-- Assembles groups, in the given order if there is one. -/
def assemble (order : Option (List String)) (groups : List Group) : Except RuleError RuleSet :=
  match order with
  | some names => RuleSet.assembleOrdered groups names
  | none => RuleSet.assemble groups

/-- Compiles every group and assembles them in order of precedence. -/
def compile (c : Config) : Except ConfigError RuleSet := do
  let groups ← c.groups.mapM compileGroup
  match assemble c.order groups with
  | .ok r => return r
  | .error e => throw (.compile e)

/-! ## Reports -/

def groupReports (g : GroupConfig) : List Message :=
  Chord.overlapReports (g.bindings.filterMap Binding.chord?)
    ++ reportsUntil (fun b => failed b.compile) Binding.reports g.bindings
    ++ (if failed (compileGroup g) then []
      else [⟨.debug, "compiled group '" ++ g.name ++ "' with " ++ toString g.bindings.length
        ++ " rules"⟩])

def assembleReports (order : Option (List String)) (groups : List Group) : List Message :=
  match order with
  | some names => RuleSet.reportsOrdered groups names
  | none => RuleSet.reports groups

def reports (c : Config) : List Message :=
  reportsUntil (fun g => failed (compileGroup g)) groupReports c.groups
    ++ (match c.groups.mapM compileGroup with
      | .ok groups => assembleReports c.order groups
      | .error _ => [])

end Config

end KeyRules
