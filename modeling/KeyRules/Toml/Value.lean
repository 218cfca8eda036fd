import KeyRules.Decimal.Binary64

/-!
# TOML values

Tables keep their keys in the order of the document. Of a date or a time only the fact is kept.
-/

namespace KeyRules

open Decimal (Binary64)

inductive TomlFloat where
  | finite (value : Binary64)
  | infinite (negative : Bool)
  | notANumber
  deriving DecidableEq, Repr

inductive Toml where
  | string (value : String)
  | integer (value : Int)
  | float (value : TomlFloat)
  | boolean (value : Bool)
  | datetime
  | array (items : List Toml)
  | table (entries : List (String × Toml))
  deriving Repr, Inhabited

/-- Floats never have an exponent. -/
def TomlFloat.style : Binary64.Style where
  half := .away
  isPlain _ := true
  plus := ""

/-- The shortest text that reads back. -/
def TomlFloat.text : TomlFloat → String
  | finite x => x.text style
  | infinite true => "-inf"
  | infinite false => "inf"
  | notANumber => "NaN"

end KeyRules
