import KeyRules.Fragment
import KeyRules.Log

/-!
# Rule sets

Groups of fragments are assembled into one rule list in which the first match wins. Assembly keeps the
groups as they are and refuses repeated group names, flags with two writers, and reads of a flag that no
earlier or equal group writes.
-/

namespace KeyRules

structure Group where
  name : String
  fragments : List Fragment
  deriving DecidableEq, Repr

/-- The manipulators of every fragment in declaration order. -/
def Group.manipulators (g : Group) : List Manipulator := g.fragments.flatMap (·.manipulators)

/-- Groups in order of precedence. -/
structure RuleSet where
  groups : List Group
  deriving DecidableEq, Repr

namespace RuleSet

/-- Every manipulator in order of precedence. -/
def manipulators (r : RuleSet) : List Manipulator := r.groups.flatMap Group.manipulators

def isEmpty (r : RuleSet) : Bool := r.groups.all (·.fragments.isEmpty)

/-- A fragment and where it stands. -/
structure Entry where
  place : Nat
  group : String
  fragment : Fragment
  deriving DecidableEq, Repr

/-- Every fragment with the place and name of its group. -/
def entries (groups : List Group) : List Entry :=
  groups.zipIdx.flatMap fun (g, place) => g.fragments.map fun f => ⟨place, g.name, f⟩

/-- The first group name that an earlier group has too. -/
def repeatedName? : List String → List Group → Option String
  | _, [] => none
  | before, g :: gs => if g.name ∈ before then some g.name else repeatedName? (before ++ [g.name]) gs

/-- The flags written so far and their writers. -/
abbrev Writers := List (Flag × Entry)

/-- Adds the flag of a writer; a second writer is an error. -/
def addWriter (e : Entry) (ws : Writers) (flag : Flag) : Except RuleError Writers :=
  match ws.lookup flag with
  | some first =>
    .error (.duplicateFlagWriter flag.name first.fragment.description e.fragment.description)
  | none => .ok (ws ++ [(flag, e)])

/-- Every written flag with its one writer. -/
def writers (es : List Entry) : Except RuleError Writers :=
  es.foldlM (fun ws e => e.fragment.writes.foldlM (addWriter e) ws) []

/-- A flag that a fragment reads is written in the same group or an earlier one. -/
def checkRead (ws : Writers) (e : Entry) (flag : Flag) : Except RuleError Unit :=
  match ws.lookup flag with
  | none => .error (.unknownFlag flag.name e.fragment.description)
  | some writer =>
    if e.place < writer.place then .error (.flagOrder flag.name e.group writer.group) else .ok ()

def checkReads (ws : Writers) (es : List Entry) : Except RuleError Unit :=
  es.forM fun e => e.fragment.reads.forM (checkRead ws e)

/-- Assembles groups in the given order. -/
def assemble (groups : List Group) : Except RuleError RuleSet :=
  match repeatedName? [] groups with
  | some name => .error (.duplicateGroup name)
  | none => do
    let ws ← writers (entries groups)
    checkReads ws (entries groups)
    return ⟨groups⟩

/-- Takes groups out of `left` by name and appends them to `taken`. Every group has to be named once. -/
def pick (left taken : List Group) : List String → Except RuleError (List Group)
  | [] =>
    match left with
    | [] => .ok taken
    | g :: _ => .error (.unorderedGroup g.name)
  | name :: names =>
    match left.find? (·.name = name) with
    | some g => pick (left.eraseP (·.name = name)) (taken ++ [g]) names
    | none =>
      if taken.any (·.name = name) then .error (.duplicateGroup name) else .error (.unknownGroup name)

/-- The groups in the order of their names. -/
def arrange (groups : List Group) (order : List String) : Except RuleError (List Group) :=
  match repeatedName? [] groups with
  | some name => .error (.duplicateGroup name)
  | none => pick groups [] order

def assembleOrdered (groups : List Group) (order : List String) : Except RuleError RuleSet := do
  assemble (← arrange groups order)

/-! ## Reports -/

/-- The key of a manipulator that always applies. -/
def openKey? (m : Manipulator) : Option Key :=
  match m.gates, m.trigger with
  | [], .single k _ => some k
  | _, _ => none

/-- Reports the keys, each with the name of its group, that an earlier group handles already. -/
def shadowReports (owners : List (Key × String)) : List (Key × String) → List Message
  | [] => []
  | (k, group) :: rest =>
    match owners.lookup k with
    | none => shadowReports (owners ++ [(k, group)]) rest
    | some owner =>
      (if owner = group then []
      else [⟨.debug, "key '" ++ k.name ++ "' is handled by group '" ++ owner
        ++ "'; the matching rule in '" ++ group ++ "' is shadowed"⟩])
        ++ shadowReports owners rest

def reports (groups : List Group) : List Message :=
  if failed (assemble groups) then []
  else
    shadowReports [] (groups.flatMap fun g => g.manipulators.filterMap fun m =>
        (openKey? m).map (·, g.name))
      ++ [⟨.debug, "assembled " ++ toString groups.length ++ " groups: "
        ++ ", ".intercalate (groups.map (·.name))⟩]

/-- What an assembly in the order of names reports. -/
def reportsOrdered (groups : List Group) (order : List String) : List Message :=
  match arrange groups order with
  | .ok arranged => reports arranged
  | .error _ => []

end RuleSet

end KeyRules
