import KeyRules.Karabiner.Lowering
import KeyRules.Proofs.Json.Members

/-!
# Reading complex modifications back

The complex modifications of a rule set can be read back: the names of the groups, and for each group its manipulators
with all their fields. So two rule sets are lowered to the same value exactly if these agree (`lowered_eq_iff`). There
is one reader for each function of the lowering, and one lemma that it undoes that function on values in canonical form.
A pasted text is read back from its command by reading the word of the shell and then the literal of the script.
-/

namespace KeyRules

/-- What lowering keeps of a rule set: its groups' names and their manipulators. -/
def RuleSet.outline (r : RuleSet) : List (String × List Manipulator) := r.groups.map fun g => (g.name, g.manipulators)

theorem Key.ofName?_name (k : Key) : Key.ofName? k.name = some k := by
  have places : ∀ i : Fin Key.names.length, Key.names.finIdxOf? (Key.names.get i) = some i := by decide +kernel
  rw [Key.ofName?, Key.name, places]
  rfl

theorem Modifier.ofName?_name (m : Modifier) : Modifier.ofName? m.name = some m := by
  cases m <;> decide +kernel

namespace Karabiner

open Json

/-! ## Paste commands -/

/-- The command up to the word of the script, with the quote that opens it. -/
def commandHead : String := "osascript -e '"

def wordText? : List Char → Option (List Char)
  | ['\''] => some []
  | '\'' :: '\\' :: '\'' :: '\'' :: rest => (wordText? rest).map ('\'' :: ·)
  | c :: rest => if c = '\'' then none else (wordText? rest).map (c :: ·)
  | [] => none

/-- What a character after a backslash stands for. -/
def unescaped? (c : Char) : Option Char :=
  if c = '\\' ∨ c = '"' then some c
  else if c = 'n' then some '\n'
  else if c = 'r' then some '\r'
  else if c = 't' then some '\t'
  else none

/-- The text of a literal after its opening quote, and what follows its closing quote. -/
def closedLiteral? : List Char → Option (List Char × List Char)
  | [] => none
  | '"' :: rest => some ([], rest)
  | '\\' :: c :: rest => do
    let c ← unescaped? c
    let (text, after) ← closedLiteral? rest
    return (c :: text, after)
  | c :: rest => do
    let (text, after) ← closedLiteral? rest
    return (c :: text, after)

/-- The text that a command pastes. -/
def pasted? (command : String) : Option String := do
  let script ← wordText? (command.toList.drop commandHead.toList.length)
  let (text, _) ← closedLiteral? (script.drop (scriptHead.toList.length + 1))
  return String.ofList text

theorem wordText?_cons {c : Char} (plain : c ≠ '\'') (rest : List Char) :
    wordText? (c :: rest) = (wordText? rest).map (c :: ·) := by
  rw [wordText?.eq_def]
  split <;> simp_all

theorem wordText?_word (text : List Char) : wordText? (text.flatMap wordChar ++ ['\'']) = some text := by
  induction text with
  | nil => rfl
  | cons c text ih =>
    rw [List.flatMap_cons, wordChar, List.append_assoc]
    by_cases quote : c = '\''
    · -- the word closes, a quote stands escaped, and the word opens again
      subst quote
      rw [if_pos rfl]
      show (wordText? (text.flatMap wordChar ++ ['\''])).map ('\'' :: ·) = some ('\'' :: text)
      rw [ih]
      rfl
    · rw [if_neg quote, List.singleton_append, wordText?_cons quote, ih]
      rfl

theorem closedLiteral?_cons {c : Char} (other : c ≠ '"') (plain : c ≠ '\\') (rest : List Char) :
    closedLiteral? (c :: rest) = (closedLiteral? rest).bind fun (text, after) => some (c :: text, after) :=
  closedLiteral?.eq_4 c rest other fun _ _ slash _ => plain slash

theorem closedLiteral?_escaped {c d : Char} (stands : unescaped? c = some d) (rest : List Char) :
    closedLiteral? ('\\' :: c :: rest) = (closedLiteral? rest).bind fun (text, after) => some (d :: text, after) := by
  rw [closedLiteral?, stands]
  rfl

/-- An escaped text is read up to the quote after it. -/
theorem closedLiteral?_literal (text after : List Char) :
    closedLiteral? (text.flatMap literalChar ++ '"' :: after) = some (text, after) := by
  induction text with
  | nil => rfl
  | cons c text ih =>
    rw [List.flatMap_cons, List.append_assoc]
    by_cases escaped : c = '\\' ∨ c = '"'
    · have pair : literalChar c = ['\\', c] := by rcases escaped with rfl | rfl <;> rfl
      rw [pair, List.cons_append, List.singleton_append, closedLiteral?_escaped (if_pos escaped), ih]
      rfl
    · obtain ⟨slash, quote⟩ := not_or.1 escaped
      rw [literalChar, if_neg slash, if_neg quote, List.singleton_append, closedLiteral?_cons quote slash, ih]
      rfl

theorem pasted?_pasteCommand (text : String) : pasted? (pasteCommand text) = some text := by
  have command : (pasteCommand text).toList = commandHead.toList ++ ((script text).flatMap wordChar ++ ['\'']) := by
    simp [pasteCommand, commandHead, word]
  have literal : (script text).drop (scriptHead.toList.length + 1) =
      text.toList.flatMap literalChar ++ '"' :: scriptTail.toList := by
    rw [script, List.append_assoc, ← List.drop_drop, List.drop_left, Karabiner.literal]
    simp
  rw [pasted?, command, List.drop_left, wordText?_word, Option.bind_eq_bind, Option.bind_some, literal,
    closedLiteral?_literal, Option.bind_eq_bind, Option.bind_some]
  exact congrArg some String.ofList_toList

/-! ## Values -/

def key? (value : Json) : Option Key := value.string?.bind Key.ofName?

def modifier? (value : Json) : Option Modifier := value.string?.bind Modifier.ofName?

def int? : Json → Option Int
  | .int n => some n
  | _ => none

def millis? (value : Json) : Option Millis := (int? value).map fun n => UInt32.ofNat n.toNat

/-- The items of an array; a member that is missing has none. -/
def items? {α : Type} (read : Json → Option α) : Option Json → Option (List α)
  | none => some []
  | some (.array items) => items.mapM read
  | some _ => none

/-! ## Events -/

def stroke? (value : Json) : Option Stroke := do
  let k ← (value.get? "key_code").bind key?
  let ms ← items? modifier? (value.get? "modifiers")
  return ⟨k, ms, (value.get? "lazy").isSome, (value.get? "halt").isSome⟩

def flagWrite? (value : Json) : Option Event := do
  let name ← (value.get? "name").bind string?
  let n ← (value.get? "value").bind int?
  return .setFlag ⟨name⟩ (n == 1)

/-- An event tells what it is by the member that only its kind has. -/
def event? (value : Json) : Option Event :=
  match value.get? "set_variable", value.get? "shell_command" with
  | some write, _ => flagWrite? write
  | none, some command => do return .paste (← pasted? (← command.string?))
  | none, none => (stroke? value).map .stroke

/-! ## Manipulators -/

def keyOrder? (value : Json) : Option KeyOrder := do
  let name ← value.string?
  return if name = keyOrder .listed then .listed else .anyOrder

def keyRef? (value : Json) : Option Key := (value.get? "key_code").bind key?

/-- Of the two kinds of trigger only the simultaneous one has options. -/
def trigger? (source : Json) (window : Option Millis) : Option Trigger :=
  match source.get? "simultaneous_options" with
  | none => do
    return .single (← keyRef? source) (source.get? "modifiers").isSome
  | some options => do
    let ks ← items? keyRef? (source.get? "simultaneous")
    return .together ks (← (options.get? "key_down_order").bind keyOrder?) (← window)

/-- The release events, which a simultaneous trigger has among its options. -/
def onRelease? (source value : Json) : Option (List Event) :=
  items? event? (((source.get? "simultaneous_options").getD value).get? "to_after_key_up")

def delayed? (action : Option Json) (delay : Option Millis) : Option (Option Delayed) :=
  match action with
  | none => some none
  | some action => do
    return some ⟨← delay, ← items? event? (action.get? "to_if_invoked"), ← items? event? (action.get? "to_if_canceled")⟩

def gate? (value : Json) : Option Gate := do
  let name ← (value.get? "name").bind string?
  let type ← (value.get? "type").bind string?
  return ⟨⟨name⟩, type == "variable_if"⟩

def time? (value : Json) (name : String) : Option Millis :=
  ((value.get? "parameters").bind (·.get? name)).bind millis?

def manipulator? (value : Json) : Option Manipulator := do
  let source ← value.get? "from"
  return {
    trigger := ← trigger? source (time? value "basic.simultaneous_threshold_milliseconds")
    gates := ← items? gate? (value.get? "conditions")
    onPress := ← items? event? (value.get? "to")
    onTap := ← items? event? (value.get? "to_if_alone")
    onHold := ← items? event? (value.get? "to_if_held_down")
    onRelease := ← onRelease? source value
    delayed := ← delayed? (value.get? "to_delayed_action") (time? value "basic.to_delayed_action_delay_milliseconds")
    tapLimit := time? value "basic.to_if_alone_timeout_milliseconds"
    holdThreshold := time? value "basic.to_if_held_down_threshold_milliseconds" }

def rule? (value : Json) : Option (String × List Manipulator) := do
  return (← (value.get? "description").bind string?, ← items? manipulator? (value.get? "manipulators"))

def rules? (value : Json) : Option (List (String × List Manipulator)) := items? rule? (some value)

/-! ## Lowered lists -/

/-- A list member, which is left out if the list is empty. -/
def listed (items : List Json) : Option Json := if items.isEmpty then none else some (array items)

@[simp] theorem lastMember?_listMember (name other : String) (items : List Json) :
    lastMember? name (listMember other items) = if other = name then listed items else none := by
  unfold listMember listed
  cases items <;> simp

@[simp] theorem lastMember?_optionalMember (name other : String) (value : Option Json) :
    lastMember? name (optionalMember other value) = if other = name then value else none := by
  cases value <;> simp [optionalMember]

@[simp] theorem lastMember?_trueMember (name other : String) (value : Bool) :
    lastMember? name (trueMember other value) = if other = name ∧ value = true then some (bool true) else none := by
  cases value <;> simp [trueMember]

@[simp] theorem lastMember?_ite (name : String) (c : Prop) [Decidable c] (yes no : List (String × Json)) :
    lastMember? name (if c then yes else no) = if c then lastMember? name yes else lastMember? name no :=
  apply_ite _ _ _ _

section
variable {α β : Type} {read : Json → Option β} {write : α → Json} {kept : α → β}

theorem items?_map (readBack : ∀ a, read (canonical (write a)) = some (kept a)) (as : List α) :
    items? read (some (canonical (array (as.map write)))) = some (as.map kept) := by
  rw [canonical_array, items?]
  induction as with
  | nil => rfl
  | cons a as ih =>
    simp only [List.map_cons, List.mapM_cons, readBack, ih, Option.bind_eq_bind, Option.bind_some, Option.pure_def]

end

section
variable {α : Type} {read : Json → Option α} {write : α → Json}

theorem items?_array (readBack : ∀ a, read (canonical (write a)) = some a) (as : List α) :
    items? read (some (canonical (array (as.map write)))) = some as := by
  rw [items?_map fun a => readBack a, List.map_id']

theorem items?_listed (readBack : ∀ a, read (canonical (write a)) = some a) (as : List α) :
    items? read ((listed (as.map write)).map canonical) = some as := by
  cases as with
  | nil => rfl
  | cons a as => exact items?_array readBack (a :: as)

end

/-! ## Reading back -/

theorem key?_keyCode (k : Key) : key? (canonical (keyCode k)) = some k := Key.ofName?_name k

theorem modifier?_name (m : Modifier) : modifier? (canonical (string m.name)) = some m := Modifier.ofName?_name m

theorem millis?_millis (ms : Millis) : millis? (canonical (millis ms)) = some ms := by
  simp [millis?, millis, int?]

theorem event?_event (e : Event) : event? (canonical (event e)) = some e := by
  cases e with
  | stroke s =>
    obtain ⟨k, ms, isLazy, isHalting⟩ := s
    have modifiers : items? modifier? ((listed (ms.map fun m => string m.name)).map canonical) = some ms :=
      items?_listed modifier?_name ms
    cases isLazy <;> cases isHalting <;> simp [event?, event, get?_canonical, stroke?, key?_keyCode, modifiers]
  | paste text => simp [event?, event, get?_canonical, pasted?_pasteCommand, string?]
  | setFlag f value => cases value <;> simp [event?, event, get?_canonical, flagWrite?, string?, int?]

theorem gate?_condition (g : Gate) : gate? (canonical (condition g)) = some g := by
  obtain ⟨f, isSet⟩ := g
  cases isSet <;> simp [gate?, condition, get?_canonical, string?]

theorem keyOrder?_keyOrder (order : KeyOrder) : keyOrder? (canonical (string (keyOrder order))) = some order := by
  cases order <;> simp [keyOrder?, keyOrder, string?]

theorem keyRef?_keyCode (k : Key) : keyRef? (canonical (object [("key_code", keyCode k)])) = some k := by
  simp [keyRef?, get?_canonical, key?_keyCode]

theorem trigger?_source (m : Manipulator) :
    trigger? (canonical (source m)) m.trigger.window? = some m.trigger := by
  unfold source
  cases m.trigger with
  | single k acceptsAny => cases acceptsAny <;> simp [trigger?, get?_canonical, keyRef?, key?_keyCode]
  | together ks order window =>
    have keys := items?_listed keyRef?_keyCode ks
    have named := keyOrder?_keyOrder order
    rw [canonical_string] at named
    simp [trigger?, get?_canonical, keys, named, Trigger.window?]

theorem items?_events (es : List Event) : items? event? ((listed (events es)).map canonical) = some es :=
  items?_listed event?_event es

theorem onRelease?_manipulator (m : Manipulator) :
    onRelease? (canonical (source m)) (canonical (manipulator m)) = some m.onRelease := by
  unfold onRelease? manipulator source releaseEvents
  cases m.trigger with
  | single k acceptsAny => cases acceptsAny <;> simp [get?_canonical, items?_events, Trigger.isTogether]
  | together ks order window => simp [get?_canonical, items?_events]

theorem delayed?_delayedAction (d : Option Delayed) :
    delayed? ((d.map delayedAction).map canonical) (d.map (·.delay)) = some d := by
  cases d with
  | none => rfl
  | some d =>
    have invoked := items?_array event?_event d.onInvoked
    have canceled := items?_array event?_event d.onCanceled
    simp [delayed?, delayedAction, events, get?_canonical, invoked, canceled]

theorem millis?_map (ms : Option Millis) : ((ms.map millis).map canonical).bind millis? = ms := by
  cases ms with
  | none => rfl
  | some ms => exact millis?_millis ms

/-- The times are found under the names of their parameters. -/
theorem time?_manipulator (m : Manipulator) (name : String) :
    time? (canonical (manipulator m)) name = ((lastMember? name (parameters m)).map canonical).bind millis? := by
  unfold time? manipulator
  by_cases noTimes : parameters m = [] <;> simp [get?_canonical, noTimes]

theorem manipulator?_manipulator (m : Manipulator) : manipulator? (canonical (manipulator m)) = some m := by
  have origin : (canonical (manipulator m)).get? "from" = some (canonical (source m)) := by
    simp [manipulator, get?_canonical]
  have window : time? (canonical (manipulator m)) "basic.simultaneous_threshold_milliseconds" = m.trigger.window? := by
    rw [time?_manipulator, ← millis?_map m.trigger.window?]
    simp [parameters]
  have tapLimit : time? (canonical (manipulator m)) "basic.to_if_alone_timeout_milliseconds" = m.tapLimit := by
    rw [time?_manipulator, ← millis?_map m.tapLimit]
    simp [parameters]
  have holdThreshold :
      time? (canonical (manipulator m)) "basic.to_if_held_down_threshold_milliseconds" = m.holdThreshold := by
    rw [time?_manipulator, ← millis?_map m.holdThreshold]
    simp [parameters]
  have delay :
      time? (canonical (manipulator m)) "basic.to_delayed_action_delay_milliseconds" = m.delayed.map (·.delay) := by
    rw [time?_manipulator, ← millis?_map (m.delayed.map (·.delay))]
    simp [parameters, Function.comp_def]
  have gates : items? gate? ((canonical (manipulator m)).get? "conditions") = some m.gates := by
    simp [manipulator, get?_canonical, items?_listed gate?_condition]
  have press : items? event? ((canonical (manipulator m)).get? "to") = some m.onPress := by
    simp [manipulator, get?_canonical, items?_events]
  have tap : items? event? ((canonical (manipulator m)).get? "to_if_alone") = some m.onTap := by
    simp [manipulator, get?_canonical, items?_events]
  have hold : items? event? ((canonical (manipulator m)).get? "to_if_held_down") = some m.onHold := by
    simp [manipulator, get?_canonical, items?_events]
  have delayed : delayed? ((canonical (manipulator m)).get? "to_delayed_action") (m.delayed.map (·.delay)) =
      some m.delayed := by
    rw [← delayed?_delayedAction m.delayed]
    simp [manipulator, get?_canonical]
  simp [manipulator?, origin, window, tapLimit, holdThreshold, delay, trigger?_source, gates, press, tap, hold,
    onRelease?_manipulator, delayed]

theorem rule?_rule (g : Group) : rule? (canonical (rule g)) = some (g.name, g.manipulators) := by
  have manipulators := items?_array manipulator?_manipulator g.manipulators
  simp [rule?, rule, get?_canonical, string?, manipulators]

theorem rules?_rules (r : RuleSet) : rules? (canonical (array (rules r))) = some r.outline :=
  items?_map rule?_rule r.groups

theorem rules_eq (r : RuleSet) :
    rules r = r.outline.map fun (name, ms) =>
      object [("description", string name), ("manipulators", array (ms.map manipulator))] := by
  rw [RuleSet.outline, List.map_map]
  rfl

/-- The lowered form of a rule set is decoded to the names of its groups and their manipulators, with all their
fields; and two rule sets have the same form exactly if these agree. -/
theorem lowered_eq_iff (r q : RuleSet) :
    rules? (canonical (array (rules r))) = some r.outline ∧
      (canonical (array (rules r)) = canonical (array (rules q)) ↔ r.outline = q.outline) := by
  refine ⟨rules?_rules r, fun same => ?_, fun same => ?_⟩
  · have read : some r.outline = some q.outline := by rw [← rules?_rules r, ← rules?_rules q, same]
    exact Option.some.inj read
  · rw [rules_eq r, rules_eq q, same]

end Karabiner

end KeyRules
