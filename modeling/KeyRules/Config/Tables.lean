import KeyRules.Config.Decode
import KeyRules.TapHold

/-!
# Rule tables

The records of a rule file as they are written: spellings are still text, and times may be left out where
the defaults give them.
-/

namespace KeyRules.Config

/-- The timing that holds for rules without their own. -/
structure Defaults where
  tapHoldTimeout : Int := 200
  priority : Priority := .tapFirst
  chordWindow : Int := 50
  doubleTapInterval : Int := 200
  simlayerThreshold : Int := 200
  deriving DecidableEq, Repr

/-- An action: a key or alias by name, a text to paste, or a key with modifiers. -/
inductive ActionTable where
  | name (spelling : String)
  | paste (text : String)
  | key (spelling : String) (modifiers : List String)
  deriving DecidableEq, Repr

structure TapHoldTable where
  key : String
  tap : Option ActionTable
  hold : ActionTable
  timeout : Option Int
  priority : Option Priority
  flag : Option String
  gate : Option String
  deriving DecidableEq, Repr

structure ChordTable where
  keys : List String
  action : ActionTable
  window : Option Int
  gate : Option String
  deriving DecidableEq, Repr

structure DoubleTapTable where
  key : String
  action : ActionTable
  singleTap : Option ActionTable
  interval : Option Int
  flag : Option String
  deriving DecidableEq, Repr

inductive LayerModeName where
  | hold
  | simultaneous
  deriving DecidableEq, Repr

structure BindingTable where
  source : String
  target : ActionTable
  deriving DecidableEq, Repr

structure LayerTable where
  key : String
  flag : Option String
  mode : LayerModeName
  threshold : Option Int
  /-- Keys that stand for themselves with `mapModifiers` added. -/
  mapKeys : List String
  mapModifiers : List String
  bindings : List BindingTable
  deriving DecidableEq, Repr

inductive RuleTable where
  | tapHold (rule : TapHoldTable)
  | chord (rule : ChordTable)
  | doubleTap (rule : DoubleTapTable)
  | layer (rule : LayerTable)
  deriving DecidableEq, Repr

structure GroupTable where
  name : String
  rules : List RuleTable
  deriving DecidableEq, Repr

structure Document where
  defaults : Defaults
  order : Option (List String)
  groups : List GroupTable
  deriving DecidableEq, Repr

/-! ## Decoding -/

def priorities : List (String × Priority) := Priority.all.map fun p => (p.name, p)

def layerModes : List (String × LayerModeName) := [("hold", .hold), ("simultaneous", .simultaneous)]

def pasteShape : Shape := ⟨"PasteToml", [.of "paste" .required string]⟩

def keyShape : Shape :=
  ⟨"KeyToml", [.of "key" .required string, .of "modifiers" .defaulted (list string)]⟩

def pasteTable (v : Toml) : Except DecodeError ActionTable := do
  let entries ← pasteShape.read true v
  return .paste (← required entries "paste" string)

def keyTable (v : Toml) : Except DecodeError ActionTable := do
  let entries ← keyShape.read true v
  return .key (← required entries "key" string)
    ((← optional entries "modifiers" (list string)).getD [])

/-- The first reading that fits: a name, a text, a key with modifiers. -/
def action : Decoder ActionTable
  | .string s => .ok (.name s)
  | v =>
    match pasteTable v, keyTable v with
    | .ok a, _ => .ok a
    | .error _, .ok a => .ok a
    | .error _, .error _ => .error (.noMatch "ActionToml")

def tapHoldShape : Shape :=
  ⟨"TapHoldToml", [.of "key" .required string, .of "tap" .optional action,
    .of "hold" .required action, .of "timeout_ms" .optional integer,
    .of "priority" .optional (alternative true priorities), .of "flag" .optional string,
    .of "gate" .optional string]⟩

def tapHold (entries : List (String × Toml)) : Except DecodeError TapHoldTable := do
  return {
    key := ← required entries "key" string
    tap := ← optional entries "tap" action
    hold := ← required entries "hold" action
    timeout := ← optional entries "timeout_ms" integer
    priority := ← optional entries "priority" (alternative true priorities)
    flag := ← optional entries "flag" string
    gate := ← optional entries "gate" string }

def chordShape : Shape :=
  ⟨"ChordToml", [.of "keys" .required (list string), .of "action" .required action,
    .of "window_ms" .optional integer, .of "gate" .optional string]⟩

def chord (entries : List (String × Toml)) : Except DecodeError ChordTable := do
  return {
    keys := ← required entries "keys" (list string)
    action := ← required entries "action" action
    window := ← optional entries "window_ms" integer
    gate := ← optional entries "gate" string }

def doubleTapShape : Shape :=
  ⟨"DoubleTapToml", [.of "key" .required string, .of "action" .required action,
    .of "single_tap" .optional action, .of "interval_ms" .optional integer,
    .of "flag" .optional string]⟩

def doubleTap (entries : List (String × Toml)) : Except DecodeError DoubleTapTable := do
  return {
    key := ← required entries "key" string
    action := ← required entries "action" action
    singleTap := ← optional entries "single_tap" action
    interval := ← optional entries "interval_ms" integer
    flag := ← optional entries "flag" string }

def bindingShape : Shape :=
  ⟨"BindingToml", [.of "from" .required string, .of "to" .required action]⟩

def binding (v : Toml) : Except DecodeError BindingTable := do
  let entries ← bindingShape.read true v
  return {
    source := ← required entries "from" string
    target := ← required entries "to" action }

def layerShape : Shape :=
  ⟨"LayerToml", [.of "key" .required string, .of "flag" .optional string,
    .of "mode" .defaulted (alternative true layerModes), .of "threshold_ms" .optional integer,
    .of "map_keys" .defaulted (list string), .of "map_modifiers" .defaulted (list string),
    .of "bindings" .defaulted (list binding)]⟩

def layer (entries : List (String × Toml)) : Except DecodeError LayerTable := do
  return {
    key := ← required entries "key" string
    flag := ← optional entries "flag" string
    mode := (← optional entries "mode" (alternative true layerModes)).getD .hold
    threshold := ← optional entries "threshold_ms" integer
    mapKeys := (← optional entries "map_keys" (list string)).getD []
    mapModifiers := (← optional entries "map_modifiers" (list string)).getD []
    bindings := (← optional entries "bindings" (list binding)).getD [] }

/-- The kinds of rules: the shape of a kind and its reading. -/
structure RuleKind where
  shape : Shape
  read : List (String × Toml) → Except DecodeError RuleTable

def ruleKinds : List (String × RuleKind) := [
  ("tap_hold", ⟨tapHoldShape, fun es => RuleTable.tapHold <$> tapHold es⟩),
  ("chord", ⟨chordShape, fun es => RuleTable.chord <$> chord es⟩),
  ("double_tap", ⟨doubleTapShape, fun es => RuleTable.doubleTap <$> doubleTap es⟩),
  ("layer", ⟨layerShape, fun es => RuleTable.layer <$> layer es⟩)]

def ruleKind : Decoder RuleKind
  | .string s => variant ruleKinds s
  | v => .error (.wrongType (describe v) "variant identifier")

/-- A rule is a table tagged by `type`, or an array with the tag in front. -/
def rule (v : Toml) : Except DecodeError RuleTable :=
  match v with
  | .array [] => .error (.missingField "type")
  | .array (tag :: items) => do
    let kind ← ruleKind tag
    kind.read (← kind.shape.ofArray true items)
  | v =>
    match entries? v with
    | none => .error (.wrongType (describe v) "internally tagged enum RuleToml")
    | some entries => do
      let kind ← required entries "type" ruleKind
      kind.read (← kind.shape.ofTable (entries.filter fun e => e.1 != "type"))

def groupShape : Shape :=
  ⟨"GroupToml", [.of "name" .required string, .of "rule" .defaulted (list rule)]⟩

def group (v : Toml) : Except DecodeError GroupTable := do
  let entries ← groupShape.read false v
  return {
    name := ← required entries "name" string
    rules := (← optional entries "rule" (list rule)).getD [] }

def defaultsShape : Shape :=
  ⟨"Defaults", [.of "tap_hold_timeout_ms" .defaulted integer,
    .of "priority" .defaulted (alternative false priorities),
    .of "chord_window_ms" .defaulted integer, .of "double_tap_interval_ms" .defaulted integer,
    .of "simlayer_threshold_ms" .defaulted integer]⟩

def defaults (v : Toml) : Except DecodeError Defaults := do
  let entries ← defaultsShape.read false v
  let usual : Defaults := {}
  return {
    tapHoldTimeout := (← optional entries "tap_hold_timeout_ms" integer).getD usual.tapHoldTimeout
    priority :=
      (← optional entries "priority" (alternative false priorities)).getD usual.priority
    chordWindow := (← optional entries "chord_window_ms" integer).getD usual.chordWindow
    doubleTapInterval :=
      (← optional entries "double_tap_interval_ms" integer).getD usual.doubleTapInterval
    simlayerThreshold :=
      (← optional entries "simlayer_threshold_ms" integer).getD usual.simlayerThreshold }

def documentShape : Shape :=
  ⟨"ConfigToml", [.of "defaults" .defaulted defaults, .of "order" .defaulted (list string),
    .of "group" .defaulted (list group)]⟩

def document (entries : List (String × Toml)) : Except DecodeError Document := do
  let entries ← documentShape.ofTable entries
  return {
    defaults := (← optional entries "defaults" defaults).getD {}
    order := ← optional entries "order" (list string)
    groups := (← optional entries "group" (list group)).getD [] }

end KeyRules.Config
