import KeyRules.Toml.Value

/-!
# Building tables

A document names its tables by headers and by dotted keys, and no table may be defined twice. While a
document is read, a table remembers whether it was only implied by a longer path and whether a dotted key
made it; that decides who may still add to it.
-/

namespace KeyRules.Toml

/-- What a key stands for while a document is read. -/
inductive Node where
  | value (v : Toml)
  | table (isImplied isDotted : Bool) (entries : List (String × Node))
  | tables (items : List (List (String × Node)))
  deriving Inhabited

abbrev Entries := List (String × Node)

def setNode (key : String) (node : Node) (es : Entries) : Entries :=
  es.map fun (k, old) => if k = key then (k, node) else (k, old)

/-- Changes the table at the end of a path. The change is told whether a dotted key made the table, and
tables that the path lacks are implied. A dotted path may only go through implied tables. -/
def editAt (dotted : Bool) (change : Bool → Entries → Option Entries) :
    List String → Bool → Entries → Option Entries
  | [], isDotted, es => change isDotted es
  | key :: path, _, es =>
    match es.lookup key with
    | none => do
      return es ++ [(key, .table true dotted (← editAt dotted change path dotted []))]
    | some (.value _) => none
    | some (.tables items) => do
      let last ← items.getLast?
      return setNode key (.tables (items.dropLast ++ [← editAt dotted change path false last])) es
    | some (.table isImplied isDotted inner) =>
      if dotted ∧ !isImplied then none
      else do
        return setNode key (.table isImplied isDotted (← editAt dotted change path isDotted inner)) es

/-- Adds a value under a dotted key. Its table has to be one that dotted keys of the same kind made. -/
def addPair (path : List String) (key : String) (v : Toml) (es : Entries) : Option Entries :=
  editAt true (fun isDotted inner =>
    if isDotted = path.isEmpty ∨ (inner.lookup key).isSome then none
    else some (inner ++ [(key, .value v)])) path false es

mutual

/-- The finished value of a node. -/
def Node.finish : Node → Toml
  | .value v => v
  | .table _ _ entries => .table (finishEntries entries)
  | .tables items => .array (finishTables items)

def finishEntries : List (String × Node) → List (String × Toml)
  | [] => []
  | (key, node) :: rest => (key, node.finish) :: finishEntries rest

def finishTables : List (List (String × Node)) → List Toml
  | [] => []
  | entries :: rest => .table (finishEntries entries) :: finishTables rest

end

/-- A document while it is read: the tables closed so far and the one that is open. -/
structure Draft where
  root : Entries := []
  /-- The header of the open table, empty before the first header. -/
  path : List String := []
  isArray : Bool := false
  opened : Entries := []

namespace Draft

/-- Puts the open table at its place. -/
def close (d : Draft) : Option Entries :=
  match d.path.getLast? with
  | none => some d.opened
  | some key =>
    editAt false (fun _ es =>
      if d.isArray then
        match es.lookup key with
        | some (.tables items) => some (setNode key (.tables (items ++ [d.opened])) es)
        | _ => none
      else some (es ++ [(key, .table false false d.opened)])) d.path.dropLast false d.root

/-- Opens the table of a header. One that was only implied is taken out and continued. -/
def openTable (d : Draft) (path : List String) : Option Draft := do
  let key ← path.getLast?
  let root ← d.close
  let mut opened := []
  -- The table is looked up first, then its parent is changed.
  let found ← lookupAt path.dropLast root
  match found.lookup key with
  | none => pure ()
  | some (.table true false entries) => opened := entries
  | some _ => failure
  let root ← editAt false (fun _ es => some (es.filter fun e => e.1 != key)) path.dropLast false root
  return { root := root, path := path, isArray := false, opened := opened }
where
  /-- The entries that the end of a path has. -/
  lookupAt : List String → Entries → Option Entries
    | [], es => some es
    | key :: path, es =>
      match es.lookup key with
      | none => some []
      | some (.value _) => none
      | some (.tables items) => do lookupAt path (← items.getLast?)
      | some (.table _ _ inner) => lookupAt path inner

/-- Opens one more table of an array of tables. -/
def openItem (d : Draft) (path : List String) : Option Draft := do
  let key ← path.getLast?
  let root ← d.close
  let root ← editAt false (fun _ es =>
    match es.lookup key with
    | none => some (es ++ [(key, .tables [])])
    | some (.tables _) => some es
    | some _ => none) path.dropLast false root
  return { root := root, path := path, isArray := true, opened := [] }

/-- Adds a value to the open table. -/
def add (d : Draft) (path : List String) (key : String) (v : Toml) : Option Draft := do
  return { d with opened := ← addPair path key v d.opened }

end Draft

end KeyRules.Toml
