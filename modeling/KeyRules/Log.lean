/-!
# Log messages

What the library reports beside its results: messages of four levels of severity. Operations do not
write them; each has a companion that says what it would report.
-/

namespace KeyRules

/-- The severity of a message, the most severe first. -/
inductive Level where
  | warn
  | info
  | debug
  | trace
  deriving DecidableEq, Repr

namespace Level

def name : Level → String
  | warn => "warn"
  | info => "info"
  | debug => "debug"
  | trace => "trace"

def all : List Level := [warn, info, debug, trace]

def ofName? (s : String) : Option Level := all.find? (·.name = s)

/-- How far down the list of severities a level is. -/
def rank : Level → Nat
  | warn => 0
  | info => 1
  | debug => 2
  | trace => 3

/-- A reader of `limit` sees messages of this level. -/
def reaches (l limit : Level) : Bool := l.rank ≤ limit.rank

end Level

structure Message where
  level : Level
  text : String
  deriving DecidableEq, Repr

def Message.line (m : Message) : String := m.level.name ++ ": " ++ m.text

/-- The reports of a pass that stops at the first item it fails on. -/
def reportsUntil (failsOn : α → Bool) (reports : α → List Message) : List α → List Message
  | [] => []
  | a :: rest => reports a ++ if failsOn a then [] else reportsUntil failsOn reports rest

/-- An operation that returned an error. -/
def failed : Except ε α → Bool
  | .error _ => true
  | .ok _ => false

end KeyRules
