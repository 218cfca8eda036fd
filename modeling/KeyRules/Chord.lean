import KeyRules.TapHold

/-!
# Chords

Keys that go down together, in any order, fire one action. Chords may share keys: the one declared first
is checked first.
-/

namespace KeyRules

structure Chord where
  keys : List Key
  action : Action
  window : Int
  /-- Must be set for the chord to apply. -/
  gate : Option Flag := none
  deriving DecidableEq, Repr

namespace Chord

def text (c : Chord) : String := Trigger.joinKeys c.keys ++ " -> " ++ c.action.text

/-- The first key that occurs earlier in the list too. -/
def repeated? : List Key → List Key → Option Key
  | _, [] => none
  | before, k :: ks => if k ∈ before then some k else repeated? (before ++ [k]) ks

def manipulator (c : Chord) (window : Millis) : Manipulator where
  trigger := .together c.keys .anyOrder window
  gates := TapHold.gatesOn c.gate
  onPress := c.action.events

def compile (c : Chord) : Except RuleError Fragment := do
  if c.keys.length < 2 then throw (.chordTooSmall c.keys.length)
  match repeated? [] c.keys with
  | some k => throw (.duplicateChordKey k)
  | none =>
    let window ← TimeSetting.window.check c.window
    return ⟨"chord " ++ c.text, [c.manipulator window], none⟩

def reports (c : Chord) : List Message :=
  if failed c.compile then [] else [⟨.debug, "compiled chord " ++ c.text⟩]

def sharedKeys (c other : Chord) : List Key := c.keys.filter (· ∈ other.keys)

/-- Two chords, by their places in a list, that share keys. The earlier one is checked first. -/
structure Overlap where
  earlier : Nat
  later : Nat
  shared : List Key
  deriving DecidableEq, Repr

def overlapsWith (before : List Chord) (c : Chord) (place : Nat) : List Overlap :=
  before.zipIdx.filterMap fun (previous, earlier) =>
    let shared := previous.sharedKeys c
    if shared.isEmpty then none else some ⟨earlier, place, shared⟩

/-- Every pair of chords that share a key. -/
def overlaps (cs : List Chord) : List Overlap :=
  cs.zipIdx.flatMap fun (c, place) => overlapsWith (cs.take place) c place

def overlapReport (earlier later : Chord) (shared : List Key) : Message :=
  ⟨.info, "chord '" ++ later.text ++ "' overlaps earlier chord '" ++ earlier.text ++ "' on "
    ++ ", ".intercalate (shared.map Key.name) ++ "; '" ++ earlier.text ++ "' takes priority"⟩

def overlapReports (cs : List Chord) : List Message :=
  (overlaps cs).filterMap fun o => do
    return overlapReport (← cs[o.earlier]?) (← cs[o.later]?) o.shared

def compileAll (cs : List Chord) : Except RuleError (List Fragment) := cs.mapM compile

def reportsAll (cs : List Chord) : List Message :=
  overlapReports cs ++ reportsUntil (fun c => failed c.compile) reports cs

end Chord

end KeyRules
