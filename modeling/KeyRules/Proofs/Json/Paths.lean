import KeyRules.Proofs.Json.Members

/-!
# Paths into values

A path names a part of a value by member names and places in arrays. Two values differ only at a path if everything
that is neither on the way to it nor below it is the same in both (`DiffersOnlyAt`).
-/

namespace KeyRules.Json

inductive Step where
  | member (name : String)
  | item (index : Nat)
  deriving DecidableEq, Repr

/-- The part of a value that a step leads to. -/
def child? (value : Json) : Step → Option Json
  | .member name => value.get? name
  | .item i => value.array?.bind (·[i]?)

/-- The part of a value at a path. -/
def at? (value : Json) : List Step → Option Json
  | [] => some value
  | step :: path => (value.child? step).bind (·.at? path)

/-- Every part is the same in both values unless it lies on the path or contains what is at the path. -/
def DiffersOnlyAt (path : List Step) (old new : Json) : Prop :=
  ∀ other, ¬other <+: path → ¬path <+: other → new.at? other = old.at? other

variable {name : String} {members : List (String × Json)} {old new : Json} {path : List Step}

theorem at?_setMember_self : (object (setMember name new members)).at? (.member name :: path) = new.at? path := by
  rw [at?, child?, get?, member?_setMember_self]
  rfl

/-- What is not below the member stays. -/
theorem at?_setMember_ne {step : Step} (differs : step ≠ .member name) :
    (object (setMember name new members)).at? (step :: path) = (object members).at? (step :: path) := by
  cases step with
  | item i => rfl
  | member other =>
    rw [at?, at?, child?, child?, get?, get?, member?_setMember_ne fun same => differs (congrArg Step.member same.symm)]

theorem at?_member (present : member? name members = some old) :
    (object members).at? (.member name :: path) = old.at? path := by
  rw [at?, child?, get?, present]
  rfl

/-- A missing member has as many parts as an empty object. -/
theorem at?_member_getD (held : (member? name members).getD (object []) = old) (below : path ≠ []) :
    (object members).at? (.member name :: path) = old.at? path := by
  cases present : member? name members with
  | some value => rw [at?_member present, ← held, present, Option.getD_some]
  | none =>
    rw [← held, at?, child?, get?, present]
    cases path with
    | nil => exact absurd rfl below
    | cons step rest => cases step <;> rfl

/-- Two objects differ only below a member that is set if the member differs only there. The old member may be missing
as long as the value taken for it has no parts. -/
theorem DiffersOnlyAt.setMember (below : ∀ rest ≠ [], (object members).at? (.member name :: rest) = old.at? rest)
    (differs : DiffersOnlyAt path old new) :
    DiffersOnlyAt (.member name :: path) (object members) (object (setMember name new members)) := by
  intro other notAbove notBelow
  cases other with
  | nil => exact absurd List.nil_prefix notAbove
  | cons step rest =>
    by_cases same : step = .member name
    · subst same
      rw [List.prefix_cons_inj] at notAbove notBelow
      have further : rest ≠ [] := fun empty => notAbove (empty ▸ List.nil_prefix)
      rw [at?_setMember_self, differs rest notAbove notBelow, below rest further]
    · exact at?_setMember_ne same

theorem differsOnlyAt_setMember :
    DiffersOnlyAt [.member name] (object members) (object (Json.setMember name new members)) := by
  intro other notAbove notBelow
  cases other with
  | nil => exact absurd List.nil_prefix notAbove
  | cons step rest =>
    refine at?_setMember_ne fun same => notBelow ?_
    rw [same]
    exact ⟨rest, rfl⟩

theorem DiffersOnlyAt.item {items : List Json} {i : Nat} (placed : items[i]? = some old)
    (differs : DiffersOnlyAt path old new) :
    DiffersOnlyAt (.item i :: path) (array items) (array (items.set i new)) := by
  intro other notAbove notBelow
  cases other with
  | nil => exact absurd List.nil_prefix notAbove
  | cons step rest =>
    cases step with
    | member other => rfl
    | item j =>
      rw [at?, at?, child?, child?, array?, array?, Option.bind_some, Option.bind_some]
      by_cases same : i = j
      · subst same
        rw [List.prefix_cons_inj] at notAbove notBelow
        rw [List.getElem?_set_self (List.getElem?_eq_some_iff.1 placed).1, placed]
        exact differs rest notAbove notBelow
      · rw [List.getElem?_set_ne same]

end KeyRules.Json
