import KeyRules.Modifier
import KeyRules.Text.Distance

/-!
# Rule errors

Why a rule cannot be built, compiled or assembled, and the one sentence that tells it.
-/

namespace KeyRules

/-- The times a rule can set. -/
inductive TimeSetting where
  | timeout
  | window
  | interval
  | threshold
  deriving DecidableEq, Repr

def TimeSetting.name : TimeSetting → String
  | timeout => "timeout_ms"
  | window => "window_ms"
  | interval => "interval_ms"
  | threshold => "threshold_ms"

/-- The two actions of a key that taps one action and holds another. -/
inductive TapHoldSide where
  | tap
  | hold
  deriving DecidableEq, Repr

def TapHoldSide.name : TapHoldSide → String
  | tap => "tap action"
  | hold => "hold action"

inductive RuleError where
  | invalidTime (setting : TimeSetting) (value : Int)
  | unknownKey (spelling : String)
  | unknownModifier (spelling : String)
  | pasteNotAllowed (side : TapHoldSide)
  | chordTooSmall (size : Nat)
  | duplicateChordKey (key : Key)
  | emptyLayer (flag : String)
  | emptyFlagName
  | duplicateFlagWriter (flag first second : String)
  | unknownFlag (flag reader : String)
  | flagOrder (flag readerGroup writerGroup : String)
  | unknownGroup (name : String)
  | unorderedGroup (name : String)
  | duplicateGroup (name : String)
  deriving DecidableEq, Repr

namespace RuleError

/-- The close entries of a vocabulary, as the end of a message. -/
def hint (alternatives : List String) : String :=
  if alternatives.isEmpty then ""
  else " (valid alternatives: " ++ ", ".intercalate alternatives ++ ")"

/-- What an unknown modifier spelling may have meant. Modifiers have a vocabulary of their own, so no
keys are suggested. -/
def modifierVocabulary : List String := Modifier.names ++ ModifierAlias.all.map (·.name)

def message : RuleError → String
  | invalidTime setting value =>
    setting.name ++ " must be greater than 0 milliseconds, got " ++ toString value
  | unknownKey spelling =>
    "unknown key identifier '" ++ spelling ++ "'" ++ hint (Text.suggest spelling Key.names)
  | unknownModifier spelling =>
    "unknown modifier '" ++ spelling ++ "'" ++ hint (Text.suggest spelling modifierVocabulary)
  | pasteNotAllowed side => side.name ++ " cannot be a text paste"
  | chordTooSmall size => "chord needs at least 2 keys, got " ++ toString size
  | duplicateChordKey key => "chord lists key '" ++ key.name ++ "' more than once"
  | emptyLayer flag => "layer '" ++ flag ++ "' has no bindings"
  | emptyFlagName => "flag name cannot be empty"
  | duplicateFlagWriter flag first second =>
    "flag '" ++ flag ++ "' is written by both '" ++ first ++ "' and '" ++ second ++ "'"
  | unknownFlag flag reader =>
    "'" ++ reader ++ "' is gated on flag '" ++ flag ++ "' which no rule sets"
  | flagOrder flag readerGroup writerGroup =>
    "group '" ++ readerGroup ++ "' reads flag '" ++ flag ++ "' but its writer group '"
      ++ writerGroup ++ "' is assembled later"
  | unknownGroup name => "group order names unknown group '" ++ name ++ "'"
  | unorderedGroup name => "group '" ++ name ++ "' is missing from the group order"
  | duplicateGroup name => "group '" ++ name ++ "' appears more than once"

end RuleError

end KeyRules
