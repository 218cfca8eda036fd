import KeyRules.Text.Quoted
import KeyRules.Toml.Value

/-!
# Decoding tables

A record is a table with known keys, or an array of its fields in order. Keys are checked in the order of
the document and missing ones last. The values of a rule are collected before their kind is known; such
values are decoded strictly, which means that an array may have no more items than the record has fields.
-/

namespace KeyRules.Config

/-- What is wrong with a value. -/
inductive DecodeError where
  | unknownField (name : String) (expected : List String)
  | missingField (name : String)
  | unknownVariant (name : String) (expected : List String)
  | wrongType (found expected : String)
  | wrongLength (found : Nat) (expected : String)
  | noMatch (kind : String)
  /-- An alternative that is written neither as a name nor as a table with one entry. -/
  | badAlternative
  deriving DecidableEq, Repr

/-- A name between grave accents. -/
def ticked (name : String) : String := "\x60" ++ name ++ "\x60"

def oneOf : List String → String
  | [] => "there are no fields"
  | [a] => "expected " ++ ticked a
  | [a, b] => "expected " ++ ticked a ++ " or " ++ ticked b
  | names => "expected one of " ++ ", ".intercalate (names.map ticked)

def DecodeError.message : DecodeError → String
  | unknownField name expected => "unknown field " ++ ticked name ++ ", " ++ oneOf expected
  | missingField name => "missing field " ++ ticked name
  | unknownVariant name expected => "unknown variant " ++ ticked name ++ ", " ++ oneOf expected
  | wrongType found expected => "invalid type: " ++ found ++ ", expected " ++ expected
  | wrongLength found expected => "invalid length " ++ toString found ++ ", expected " ++ expected
  | noMatch kind => "data did not match any variant of untagged enum " ++ kind
  | badAlternative => "wanted string or table"

abbrev Decoder (α : Type) := Toml → Except DecodeError α

/-- How a value is named where another one was expected. -/
def describe : Toml → String
  | .string s => "string " ++ Text.quoted s
  | .integer n => "integer " ++ ticked (toString n)
  | .float x => "floating point " ++ ticked x.text
  | .boolean b => "boolean " ++ ticked (if b then "true" else "false")
  | .array _ => "sequence"
  | .datetime | .table _ => "map"

/-- The key under which a date or a time stands when it is seen as a table. -/
def datetimeKey : String := "$__toml_private_datetime"

/-- The entries of a value that can be seen as a table. -/
def entries? : Toml → Option (List (String × Toml))
  | .table entries => some entries
  | .datetime => some [(datetimeKey, .string "")]
  | _ => none

def string : Decoder String
  | .string s => .ok s
  | v => .error (.wrongType (describe v) "a string")

def integer : Decoder Int
  | .integer n => .ok n
  | v => .error (.wrongType (describe v) "i64")

def list (item : Decoder α) : Decoder (List α)
  | .array items => items.mapM item
  | v => .error (.wrongType (describe v) "a sequence")

def variant (names : List (String × α)) (name : String) : Except DecodeError α :=
  match names.lookup name with
  | some a => .ok a
  | none => .error (.unknownVariant name (names.map (·.1)))

/-- An alternative by the only key of a table. Its value has to be empty: a table or, unless `strict`, an
array. -/
def soleEntry (strict : Bool) (names : List (String × α)) :
    List (String × Toml) → Except DecodeError α
  | [(name, inner)] => do
    let a ← variant names name
    match strict, inner with
    | _, .table [] => return a
    | false, .array [] => return a
    | false, _ => throw .badAlternative
    | true, _ => throw (.wrongType (describe inner) "unit")
  | _ => .error .badAlternative

/-- One of several alternatives without content: its name, or a table with that key and nothing under
it. -/
def alternative (strict : Bool) (names : List (String × α)) : Decoder α
  | .string s => variant names s
  | .table entries => soleEntry strict names entries
  | v =>
    if !strict then .error .badAlternative
    else
      match entries? v with
      | some entries => soleEntry strict names entries
      | none => .error (.wrongType (describe v) "string or map")

/-! ## Records -/

/-- Where a field may be left out. -/
inductive Presence where
  | required
  /-- In a table only. -/
  | optional
  /-- In a table, and at the end of an array. -/
  | defaulted
  deriving DecidableEq, Repr

/-- A field with a check of its value. -/
structure Field where
  name : String
  presence : Presence
  check : Toml → Except DecodeError Unit

/-- A field whose value a decoder reads. -/
def Field.of (name : String) (presence : Presence) (decode : Decoder α) : Field :=
  ⟨name, presence, fun v => do let _ ← decode v⟩

structure Shape where
  name : String
  fields : List Field

namespace Shape

def describe (s : Shape) : String := "struct " ++ s.name

/-- How many fields an array for the record has. -/
def arrayText (s : Shape) : String :=
  s.describe ++ " with " ++ toString s.fields.length
    ++ if s.fields.length = 1 then " element" else " elements"

/-- Checks one entry of a table. -/
def checkEntry (s : Shape) (entry : String × Toml) : Except DecodeError Unit :=
  match s.fields.find? (·.name = entry.1) with
  | some field => field.check entry.2
  | none => .error (.unknownField entry.1 (s.fields.map (·.name)))

/-- A field that a table has to have. -/
def checkPresent (entries : List (String × Toml)) (field : Field) : Except DecodeError Unit :=
  if field.presence = .required ∧ (entries.lookup field.name).isNone then
    .error (.missingField field.name)
  else .ok ()

/-- The checked entries of a table. -/
def ofTable (s : Shape) (entries : List (String × Toml)) :
    Except DecodeError (List (String × Toml)) := do
  entries.forM s.checkEntry
  s.fields.forM (checkPresent entries)
  return entries

/-- The entries of an array, its items under the names of the fields. -/
def ofItems (s : Shape) (place : Nat) : List Field → List Toml →
    Except DecodeError (List (String × Toml))
  | [], _ => .ok []
  | field :: fields, [] =>
    if field.presence = .defaulted then ofItems s (place + 1) fields []
    else .error (.wrongLength place s.arrayText)
  | field :: fields, item :: items => do
    field.check item
    return (field.name, item) :: (← ofItems s (place + 1) fields items)

/-- The checked entries of an array. -/
def ofArray (strict : Bool) (s : Shape) (items : List Toml) :
    Except DecodeError (List (String × Toml)) := do
  let entries ← s.ofItems 0 s.fields items
  let count := s.fields.length
  if strict ∧ count < items.length then
    throw (.wrongLength items.length
      (toString count ++ (if count = 1 then " element" else " elements") ++ " in sequence"))
  return entries

def read (strict : Bool) (s : Shape) (v : Toml) : Except DecodeError (List (String × Toml)) :=
  match v with
  | .array items => s.ofArray strict items
  | v =>
    match entries? v with
    | some entries => s.ofTable entries
    | none => .error (.wrongType (Config.describe v) s.describe)

end Shape

def required (entries : List (String × Toml)) (name : String) (decode : Decoder α) :
    Except DecodeError α :=
  match entries.lookup name with
  | some v => decode v
  | none => .error (.missingField name)

def optional (entries : List (String × Toml)) (name : String) (decode : Decoder α) :
    Except DecodeError (Option α) :=
  match entries.lookup name with
  | some v => do return some (← decode v)
  | none => .ok none

end KeyRules.Config
