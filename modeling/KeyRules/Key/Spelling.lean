import KeyRules.Error
import KeyRules.Text.Blank

/-!
# Reading keys and modifiers

Rule tables spell keys by name, by alias or in another letter case, and modifiers by engine name, by
alias, by short name or as a run of symbols such as `⌘⌥`.
-/

namespace KeyRules

def Key.parse (s : String) : Except RuleError Key :=
  match Key.ofSpelling? s with
  | some key => .ok key
  | none => .error (.unknownKey s)

/-- Reads a list of keys; the first unknown spelling is the error. -/
def Key.parseAll (spellings : List String) : Except RuleError (List Key) := spellings.mapM Key.parse

namespace Modifier

def shortNames : List (String × Modifier) :=
  [("cmd", command), ("ctrl", control), ("opt", option), ("alt", option)]

def ofSymbol? : Char → Option Modifier
  | '⌘' => some command
  | '⌃' => some control
  | '⌥' => some option
  | '⇧' => some shift
  | _ => none

/-- The modifiers of a run of symbols, at least one. -/
def ofSymbols? (cs : List Char) : Option (List Modifier) :=
  if cs.isEmpty then none else (cs.mapM ofSymbol?).map distinct

/-- The modifiers that one spelling stands for. White space around it does not count. -/
def ofSpelling? (s : String) : Option (List Modifier) :=
  let trimmed := Text.trim s
  match ModifierAlias.ofName? trimmed with
  | some combination => some combination.expand
  | none =>
    let small := Text.lower trimmed
    match ofName? small with
    | some m => some [m]
    | none =>
      match shortNames.lookup small with
      | some m => some [m]
      | none => ofSymbols? trimmed.toList

def parse (s : String) : Except RuleError (List Modifier) :=
  match ofSpelling? s with
  | some ms => .ok ms
  | none => .error (.unknownModifier s)

/-- Reads a list of spellings into one list, each modifier at its first occurrence. -/
def parseAll (spellings : List String) : Except RuleError (List Modifier) :=
  spellings.foldlM (fun ms s => do return (← parse s).foldl addNew ms) []

end Modifier

end KeyRules
