import KeyRules.Json.Value

/-!
# Members of objects

A member that is set is found again, all others stay (`member?_setMember`), and of two values set one after the other
the second one counts (`setMember_setMember`). In canonical form an object has for each name the last member of that
name (`get?_canonical`).
-/

namespace KeyRules.Json

variable {name other : String} {value : Json} {members : List (String × Json)}

@[simp] theorem member?_nil : member? name [] = none := rfl

theorem member?_cons :
    member? name ((other, value) :: members) = if other = name then some value else member? name members := rfl

theorem array?_eq_some {items : List Json} (list : array? value = some items) : value = array items := by
  cases value with
  | array _ =>
    cases list
    rfl
  | _ => cases list

/-! ## Setting a member -/

theorem member?_insertMember :
    member? other (insertMember name value members) = if name = other then some value else member? other members := by
  induction members with
  | nil => rfl
  | cons m rest ih =>
    obtain ⟨first, old⟩ := m
    unfold insertMember
    split
    · rfl
    · split
      · rename_i same
        subst same
        rw [member?_cons, member?_cons]
        split <;> rfl
      · rename_i differs
        rw [member?_cons, member?_cons, ih]
        by_cases here : first = other
        · rw [if_pos here, if_pos here, if_neg (here ▸ differs)]
        · rw [if_neg here, if_neg here]

theorem member?_replaceMember (present : (member? name members).isSome = true) :
    member? other (replaceMember name value members) = if name = other then some value else member? other members := by
  induction members with
  | nil => cases present
  | cons m rest ih =>
    obtain ⟨first, old⟩ := m
    rw [member?_cons] at present
    unfold replaceMember
    by_cases here : first = name
    · subst here
      rw [if_pos rfl, member?_cons, member?_cons]
      split <;> rfl
    · rw [if_neg here] at present ⊢
      rw [member?_cons, member?_cons, ih present]
      by_cases there : first = other
      · rw [if_pos there, if_pos there, if_neg fun same => here (there.trans same.symm)]
      · rw [if_neg there, if_neg there]

theorem setMember_of_none (absent : member? name members = none) :
    setMember name value members = insertMember name value members := by
  rw [setMember, absent]
  rfl

theorem setMember_of_some {old : Json} (present : member? name members = some old) :
    setMember name value members = replaceMember name value members := by
  rw [setMember, present]
  rfl

theorem member?_setMember :
    member? other (setMember name value members) = if name = other then some value else member? other members := by
  unfold setMember
  split
  · rename_i present
    exact member?_replaceMember present
  · exact member?_insertMember

@[simp] theorem member?_setMember_self : member? name (setMember name value members) = some value := by
  rw [member?_setMember, if_pos rfl]

theorem member?_setMember_ne (differs : name ≠ other) :
    member? other (setMember name value members) = member? other members := by
  rw [member?_setMember, if_neg differs]

theorem replaceMember_self (present : member? name members = some value) :
    replaceMember name value members = members := by
  induction members with
  | nil => cases present
  | cons m rest ih =>
    obtain ⟨first, old⟩ := m
    rw [member?_cons] at present
    rw [replaceMember]
    by_cases here : first = name
    · rw [if_pos here] at present ⊢
      cases present
      rw [here]
    · rw [if_neg here] at present ⊢
      rw [ih present]

theorem replaceMember_replaceMember {old : Json} :
    replaceMember name value (replaceMember name old members) = replaceMember name value members := by
  induction members with
  | nil => rfl
  | cons m rest ih =>
    obtain ⟨first, then_value⟩ := m
    rw [replaceMember]
    by_cases here : first = name
    · rw [if_pos here, replaceMember, if_pos rfl, replaceMember, if_pos here]
    · rw [if_neg here, replaceMember, if_neg here, ih, replaceMember, if_neg here]

theorem replaceMember_insertMember {old : Json} (absent : member? name members = none) :
    replaceMember name value (insertMember name old members) = insertMember name value members := by
  induction members with
  | nil => rw [insertMember, replaceMember, if_pos rfl, insertMember]
  | cons m rest ih =>
    obtain ⟨first, then_value⟩ := m
    rw [member?_cons] at absent
    by_cases here : first = name
    · rw [if_pos here] at absent
      cases absent
    · rw [if_neg here] at absent
      rw [insertMember, insertMember]
      split
      · rw [replaceMember, if_pos rfl]
      · rw [if_neg (Ne.symm here), if_neg (Ne.symm here), replaceMember, if_neg here, ih absent]

/-- The last value counts. -/
theorem setMember_setMember {old : Json} :
    setMember name value (setMember name old members) = setMember name value members := by
  have present : (member? name (setMember name old members)).isSome = true := by rw [member?_setMember_self]; rfl
  rw [setMember, if_pos present, setMember, setMember]
  split
  · exact replaceMember_replaceMember
  · rename_i absent
    exact replaceMember_insertMember (Option.not_isSome_iff_eq_none.1 absent)

/-! ## Canonical form -/

def lastMember? (name : String) : List (String × Json) → Option Json
  | [] => none
  | (other, value) :: rest => (lastMember? name rest).or (if other = name then some value else none)

@[simp] theorem lastMember?_nil : lastMember? name [] = none := rfl

@[simp] theorem lastMember?_cons :
    lastMember? name ((other, value) :: members) =
      (lastMember? name members).or (if other = name then some value else none) := rfl

@[simp] theorem lastMember?_append (before after : List (String × Json)) :
    lastMember? name (before ++ after) = (lastMember? name after).or (lastMember? name before) := by
  induction before with
  | nil => simp
  | cons m before ih =>
    obtain ⟨other, value⟩ := m
    rw [List.cons_append, lastMember?_cons, ih, lastMember?_cons, Option.or_assoc]

@[simp] theorem canonical_bool (value : Bool) : canonical (bool value) = bool value := rfl

@[simp] theorem canonical_int (value : Int) : canonical (int value) = int value := rfl

@[simp] theorem canonical_string (value : String) : canonical (string value) = string value := rfl

theorem canonicalItems_eq (items : List Json) : canonicalItems items = items.map canonical := by
  induction items with
  | nil => rfl
  | cons item rest ih => rw [canonicalItems, ih, List.map_cons]

theorem canonical_array (items : List Json) : canonical (array items) = array (items.map canonical) := by
  rw [canonical, canonicalItems_eq]

theorem member?_canonicalMembers :
    member? name (canonicalMembers members) = (lastMember? name members).map canonical := by
  induction members generalizing name with
  | nil => rfl
  | cons m rest ih =>
    obtain ⟨other, value⟩ := m
    rw [canonicalMembers, lastMember?_cons]
    by_cases later : (member? other (canonicalMembers rest)).isSome = true
    · rw [if_pos later, ih]
      by_cases same : other = name
      · rw [same, ih, Option.isSome_map] at later
        obtain ⟨last, found⟩ := Option.isSome_iff_exists.1 later
        rw [found]
        rfl
      · rw [if_neg same, Option.or_none]
    · rw [if_neg later, member?_insertMember, ih]
      by_cases same : other = name
      · rw [same, ih, Option.isSome_map, Option.not_isSome_iff_eq_none] at later
        rw [if_pos same, if_pos same, later]
        rfl
      · rw [if_neg same, if_neg same, Option.or_none]

theorem get?_canonical : (canonical (object members)).get? name = (lastMember? name members).map canonical :=
  member?_canonicalMembers

end KeyRules.Json
