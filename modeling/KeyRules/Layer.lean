import KeyRules.TapHold

/-!
# Layers

A layer is a second key table that one flag switches on. Its activation key sets the flag while it is
held, or, in simultaneous mode, when it goes down together with a key of the table.
-/

namespace KeyRules

inductive LayerMode where
  /-- While the activation key is held; tapping it alone types it. -/
  | hold
  /-- When the activation key and then a key of the table go down within the threshold. -/
  | simultaneous (threshold : Int)
  deriving DecidableEq, Repr

abbrev KeyTable := List (Key × Action)

structure Layer where
  key : Key
  flag : Flag
  mode : LayerMode
  bindings : KeyTable
  deriving DecidableEq, Repr

namespace Layer

def text (l : Layer) : String :=
  (match l.mode with
    | .hold => "layer "
    | .simultaneous _ => "simlayer ") ++ l.key.name ++ " (" ++ l.flag.name ++ ")"

/-- A binding that applies while the layer is on. -/
def gated (l : Layer) : Key × Action → Manipulator
  | (source, target) => {
      trigger := .ofKey source
      gates := [.whenSet l.flag]
      onPress := target.events }

/-- The activation key in hold mode. -/
def activation (l : Layer) : Manipulator where
  trigger := .ofKey l.key
  onPress := [.setFlag l.flag true]
  onTap := (Action.key l.key []).events
  onRelease := [.setFlag l.flag false]

/-- The activation key together with a key of the table. -/
def opener (l : Layer) (threshold : Millis) : Key × Action → Manipulator
  | (source, target) => {
      trigger := .together [l.key, source] .listed threshold
      onPress := .setFlag l.flag true :: target.events
      onRelease := [.setFlag l.flag false] }

/-- The bindings that can open a layer: those of other keys than the activation key. -/
def openerBindings (l : Layer) : KeyTable := l.bindings.filter fun b => b.1 != l.key

def manipulators (l : Layer) : Except RuleError (List Manipulator) :=
  match l.mode with
  | .hold => .ok (l.activation :: l.bindings.map l.gated)
  | .simultaneous threshold => do
    let window ← TimeSetting.threshold.check threshold
    return l.bindings.map l.gated ++ l.openerBindings.map (l.opener window)

def compile (l : Layer) : Except RuleError Fragment := do
  if l.bindings.isEmpty then throw (.emptyLayer l.flag.name)
  return ⟨l.text, ← l.manipulators, some l.flag⟩

/-- A binding whose key has an earlier one. -/
def unreachableReport (l : Layer) (source : Key) (target earlier : Action) : Message :=
  ⟨.warn, l.text ++ ": binding " ++ source.name ++ " -> " ++ target.text ++ " is unreachable, "
    ++ source.name ++ " -> " ++ earlier.text ++ " is declared first"⟩

/-- What shadows the bindings of a table, given the bindings before them. -/
def shadowReports (l : Layer) (before : KeyTable) : KeyTable → List Message
  | [] => []
  | (source, target) :: rest =>
    ((before.lookup source).map (l.unreachableReport source target)).toList
      ++ (if source = l.key then
          [⟨.warn, l.text ++ ": activation key " ++ source.name ++ " is also bound in the layer"⟩]
        else [])
      ++ shadowReports l (before ++ [(source, target)]) rest

/-- What a compilation reports; shadowed bindings are reported even if the threshold is refused. -/
def reports (l : Layer) : List Message :=
  l.shadowReports [] l.bindings
    ++ (if failed l.compile then []
      else [⟨.debug, "compiled " ++ l.text ++ " with " ++ toString l.bindings.length ++ " bindings"⟩])

end Layer

end KeyRules
