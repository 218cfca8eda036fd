import KeyRules.Flag
import KeyRules.Key.Spelling
import KeyRules.Text.Quoted

/-!
# Actions and events

An action is what a rule author binds to a key. It is carried out as events: key strokes, pasted text
and flag writes. A lazy stroke waits until another key needs it, a halting one settles its press.
-/

namespace KeyRules

/-- A key sent down together with modifiers. -/
structure Stroke where
  key : Key
  modifiers : List Modifier
  isLazy : Bool
  isHalting : Bool
  deriving DecidableEq, Repr

/-- One step of what a rule sends. -/
inductive Event where
  | stroke (s : Stroke)
  | paste (text : String)
  | setFlag (flag : Flag) (value : Bool)
  deriving DecidableEq, Repr

namespace Event

/-- The event made halting; only strokes can halt. -/
def halted : Event → Event
  | stroke s => stroke { s with isHalting := true }
  | other => other

def isHalting : Event → Bool
  | stroke s => s.isHalting
  | _ => false

def flag? : Event → Option Flag
  | setFlag f _ => some f
  | _ => none

end Event

/-- What a key is bound to: a stroke, all modifiers of an alias as one chord, or a text. -/
inductive Action where
  | key (key : Key) (modifiers : List Modifier)
  | combination (name : ModifierAlias)
  | paste (text : String)
  deriving DecidableEq, Repr

namespace Action

/-- A stroke of a key with modifiers, each modifier once. -/
def withModifiers (k : Key) (ms : List Modifier) : Action := key k (Modifier.distinct ms)

/-- Reads a modifier alias or a key. -/
def parse (s : String) : Except RuleError Action :=
  match ModifierAlias.ofName? (Text.trim s) with
  | some name => .ok (combination name)
  | none => do return key (← Key.parse s) []

/-- Reads a key and the modifiers to send with it. -/
def parseWith (spelling : String) (modifiers : List String) : Except RuleError Action := do
  let k ← Key.parse spelling
  let mut collected := []
  for s in modifiers do
    for m in ← Modifier.parse s do
      collected := Modifier.addNew collected m
  return key k collected

def isPaste : Action → Bool
  | paste _ => true
  | _ => false

/-- The key that carries an alias. -/
def carrier? (name : ModifierAlias) : Option Key := name.expand.head?.bind fun m => Key.ofSpelling? m.name

/-- The key that goes down first. -/
def primaryKey? : Action → Option Key
  | key k _ => some k
  | combination name => carrier? name
  | paste _ => none

/-- The events of an action. With `isLazy`, modifiers wait until another key needs them. -/
def eventsWith (isLazy : Bool) : Action → List Event
  | key k ms => [.stroke ⟨k, ms, isLazy && k.isModifier, false⟩]
  | combination name =>
    match carrier? name with
    | some k => [.stroke ⟨k, name.expand.tail, isLazy, false⟩]
    | none => []
  | paste text => [.paste text]

/-- Events that are sent immediately. -/
def events (a : Action) : List Event := a.eventsWith false

/-- Events whose modifiers are sent once another key needs them. -/
def lazyEvents (a : Action) : List Event := a.eventsWith true

def text : Action → String
  | key k ms => String.join (ms.map fun m => m.name ++ "+") ++ k.name
  | combination name => name.name
  | paste content => "paste(" ++ Text.quoted content ++ ")"

end Action

end KeyRules
