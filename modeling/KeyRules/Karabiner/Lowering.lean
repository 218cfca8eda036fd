import KeyRules.Json.Printer
import KeyRules.Karabiner.PasteCommand
import KeyRules.RuleSet

/-!
# Complex modifications

A rule set is lowered to the complex modifications of a Karabiner-Elements profile: one described rule per
group, one object per manipulator. Members that would be empty are left out.
-/

namespace KeyRules.Karabiner

open Json

/-- A list member, left out if the list is empty. -/
def listMember (name : String) (items : List Json) : List (String × Json) :=
  if items.isEmpty then [] else [(name, array items)]

def optionalMember (name : String) (value : Option Json) : List (String × Json) :=
  (value.map (name, ·)).toList

/-- A member that is present only if it is true. -/
def trueMember (name : String) (value : Bool) : List (String × Json) :=
  if value then [(name, bool true)] else []

def millis (ms : Millis) : Json := int ms.toNat

def keyCode (k : Key) : Json := string k.name

def event : Event → Json
  | .stroke s => object (
      ("key_code", keyCode s.key) :: listMember "modifiers" (s.modifiers.map fun m => string m.name)
        ++ trueMember "lazy" s.isLazy ++ trueMember "halt" s.isHalting)
  | .paste text => object [("shell_command", string (pasteCommand text))]
  | .setFlag f value => object [("set_variable", object [
      ("name", string f.name), ("value", int (if value then 1 else 0))])]

def events (es : List Event) : List Json := es.map event

/-- Any modifiers may be held. -/
def anyModifiers : Json := object [("optional", array [string "any"])]

def keyOrder : KeyOrder → String
  | .anyOrder => "insensitive"
  | .listed => "strict"

/-- The input side. A simultaneous trigger carries the release events of the manipulator. -/
def source (m : Manipulator) : Json :=
  match m.trigger with
  | .single k acceptsAny => object (
      ("key_code", keyCode k) :: if acceptsAny then [("modifiers", anyModifiers)] else [])
  | .together ks order _ => object (
      listMember "simultaneous" (ks.map fun k => object [("key_code", keyCode k)])
        ++ [("simultaneous_options", object (
            ("key_down_order", string (keyOrder order))
              :: listMember "to_after_key_up" (events m.onRelease))),
          ("modifiers", anyModifiers)])

/-- The release events of a single-key trigger. -/
def releaseEvents (m : Manipulator) : List Json :=
  if m.trigger.isTogether then [] else events m.onRelease

def delayedAction (d : Delayed) : Json :=
  object [("to_if_invoked", array (events d.onInvoked)), ("to_if_canceled", array (events d.onCanceled))]

/-- The times that a manipulator sets. -/
def parameters (m : Manipulator) : List (String × Json) :=
  optionalMember "basic.simultaneous_threshold_milliseconds" (m.trigger.window?.map millis)
    ++ optionalMember "basic.to_if_alone_timeout_milliseconds" (m.tapLimit.map millis)
    ++ optionalMember "basic.to_if_held_down_threshold_milliseconds" (m.holdThreshold.map millis)
    ++ optionalMember "basic.to_delayed_action_delay_milliseconds"
      (m.delayed.map fun d => millis d.delay)

def condition (g : Gate) : Json :=
  object [("type", string (if g.isSet then "variable_if" else "variable_unless")),
    ("name", string g.flag.name), ("value", int 1)]

def manipulator (m : Manipulator) : Json :=
  object (
    [("type", string "basic"), ("from", source m)]
      ++ listMember "to" (events m.onPress)
      ++ listMember "to_if_alone" (events m.onTap)
      ++ listMember "to_if_held_down" (events m.onHold)
      ++ listMember "to_after_key_up" (releaseEvents m)
      ++ optionalMember "to_delayed_action" (m.delayed.map delayedAction)
      ++ (if (parameters m).isEmpty then [] else [("parameters", object (parameters m))])
      ++ listMember "conditions" (m.gates.map condition))

def rule (g : Group) : Json :=
  object [("description", string g.name), ("manipulators", array (g.manipulators.map manipulator))]

/-- The rules of a set, in its order of precedence. -/
def rules (r : RuleSet) : List Json := r.groups.map rule

end KeyRules.Karabiner
