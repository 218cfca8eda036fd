import KeyRules.Chord
import KeyRules.DoubleTap
import KeyRules.Layer

/-!
# Bindings

A binding is one rule of a rule table, of any of the four kinds.
-/

namespace KeyRules

inductive Binding where
  | tapHold (binding : TapHold)
  | chord (chord : Chord)
  | doubleTap (pattern : DoubleTap)
  | layer (layer : Layer)
  deriving DecidableEq, Repr

namespace Binding

def compile : Binding → Except RuleError Fragment
  | tapHold b => b.compile
  | chord c => c.compile
  | doubleTap d => d.compile
  | layer l => l.compile

def reports : Binding → List Message
  | tapHold b => b.reports
  | chord c => c.reports
  | doubleTap d => d.reports
  | layer l => l.reports

def text : Binding → String
  | tapHold b => b.text
  | chord c => c.text
  | doubleTap d => d.text
  | layer l => l.text

def chord? : Binding → Option Chord
  | chord c => some c
  | _ => none

end Binding

end KeyRules
