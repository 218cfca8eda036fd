import KeyRules.Json.Printer
import KeyRules.Json.Reader
import KeyRules.Log

/-!
# Profiles

The rules of one profile in a Karabiner-Elements configuration are replaced; everything else in the
configuration stays. The first profile of a name counts.
-/

namespace KeyRules.Karabiner

open Json

inductive ProfileError where
  | missingProfiles
  | notFound (profile : String)
  | notAnObject (profile : String)
  | modificationsNotAnObject (profile : String)
  deriving DecidableEq, Repr

def ProfileError.message : ProfileError → String
  | missingProfiles => "malformed karabiner config: missing 'profiles' array"
  | notFound profile => "profile '" ++ profile ++ "' not found"
  | notAnObject profile => "malformed karabiner config: profile '" ++ profile ++ "' is not an object"
  | modificationsNotAnObject profile =>
    "malformed karabiner config: 'complex_modifications' of profile '" ++ profile
      ++ "' is not an object"

/-- A value that has the name of the profile. -/
def isProfile (profile : String) (value : Json) : Bool :=
  match (value.get? "name").bind Json.string? with
  | some name => name = profile
  | none => false

/-- What an edit in place leaves, and why it failed if it did. -/
structure Edited (α : Type) where
  value : α
  failure : Option ProfileError := none
  deriving Repr

/-- The whole after an edit of a part, which stays in it however the edit ended. -/
def Edited.map {α β : Type} (whole : α → β) (part : Edited α) : Edited β := ⟨whole part.value, part.failure⟩

/-- The members of a profile with complex modifications among them. -/
def openModifications (members : List (String × Json)) : List (String × Json) :=
  if (member? "complex_modifications" members).isSome then members
  else insertMember "complex_modifications" (object []) members

/-- Puts rules into the complex modifications of a profile, which are made if there are none. -/
def editModifications (profile : String) (rules : List Json) (members : List (String × Json)) :
    Edited (List (String × Json)) :=
  let opened := openModifications members
  match member? "complex_modifications" opened with
  | some (object modifications) =>
    ⟨replaceMember "complex_modifications"
      (object (setMember "rules" (array (canonicalItems rules)) modifications)) opened, none⟩
  | _ => ⟨opened, some (.modificationsNotAnObject profile)⟩

/-- Puts rules into the first profile of a name. -/
def editProfile (profile : String) (rules : List Json) : List Json → Edited (List Json)
  | [] => ⟨[], some (.notFound profile)⟩
  | entry :: rest =>
    if isProfile profile entry then
      match entry with
      | object members => (editModifications profile rules members).map fun changed => object changed :: rest
      | _ => ⟨entry :: rest, some (.notAnObject profile)⟩
    else (editProfile profile rules rest).map fun changed => entry :: changed

/-- Replaces the rules of a profile in place. -/
def editRules (config : Json) (profile : String) (rules : List Json) : Edited Json :=
  match config with
  | object members =>
    match (member? "profiles" members).bind Json.array? with
    | some entries =>
      (editProfile profile rules entries).map fun changed => object (replaceMember "profiles" (array changed) members)
    | none => ⟨config, some .missingProfiles⟩
  | _ => ⟨config, some .missingProfiles⟩

/-- Replaces the rules of a profile. -/
def replaceRules (config : Json) (profile : String) (rules : List Json) : Except ProfileError Json :=
  let edited := editRules config profile rules
  match edited.failure with
  | some e => .error e
  | none => .ok edited.value

/-- The text of a configuration file: sorted members, two spaces, a final line break. -/
def fileText (config : Json) : String := config.pretty ++ "\n"

/-- What a written profile reports. -/
def writtenReport (path profile : String) (ruleCount : Nat) : Message :=
  ⟨.info, "wrote " ++ toString ruleCount ++ " rules to profile '" ++ profile ++ "' in " ++ path⟩

end KeyRules.Karabiner
