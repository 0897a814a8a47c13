import BuildPlanner.Diagnostic.Template

/-!
The history of reported diagnostics, the policy that decides what is reported, and listeners.

A listener that is attached receives every record from then on, once for each time it is attached.
Detaching it removes all its attachments, but it keeps what it received.
-/

namespace BuildPlanner.Diagnostic

structure Policy where
  warningsAsErrors : Bool := false
  suppressWarnings : Bool := false
  showAfterFatal : Bool := false
deriving DecidableEq, Repr

/-- A diagnostic that was reported, with the severity it was reported at. -/
structure Record where
  diagnostic : Diagnostic
  severity : Severity
  isFatal : Bool
deriving DecidableEq, Repr

inductive Listener.Kind
  | collecting
  | printing
  | silent
  | failing
deriving DecidableEq, Repr

structure Listener where
  name : String
  kind : Listener.Kind
  received : List Record := []
deriving DecidableEq, Repr

inductive Trouble
  | none
  | error
  | fatal
deriving DecidableEq, Repr

structure Engine where
  policy : Policy := {}
  trouble : Trouble := .none
  emitted : List Record := []
  /-- The names of the attached listeners, in the order in which they were attached. -/
  audience : List String := []
  /-- All listeners ever attached, one for each name. -/
  listeners : List Listener := []
deriving DecidableEq, Repr

def line (severity : Severity) (template : String) (args : List Argument) :
    Except Fault String := do
  return severity.label ++ ": " ++ (← format template args) ++ "\n"

def Record.line (r : Record) : Except Fault String :=
  Diagnostic.line r.severity r.diagnostic.code.template r.diagnostic.arguments

namespace Listener

def printed (l : Listener) : Except Fault String := do
  return String.join (← l.received.mapM Record.line)

def sawError (l : Listener) : Bool := l.received.any (·.severity = .error)

end Listener

def Trouble.add (t : Trouble) (r : Record) : Trouble :=
  if r.isFatal ∨ t = .fatal then .fatal else if r.severity = .error then .error else t

namespace Engine

def hadError (e : Engine) : Bool := e.trouble ≠ .none

def hadFatal (e : Engine) : Bool := e.trouble = .fatal

/-- How a diagnostic is to be reported now, if at all. After a fatal error everything is muted
unless the policy shows it; suppressing warnings prevails over treating them as errors. -/
def verdict (e : Engine) (d : Diagnostic) : Option Record :=
  if e.hadFatal && !e.policy.showAfterFatal then none
  else
    match d.code.severity with
    | .error => some ⟨d, .error, d.code.isFatal⟩
    | .warning =>
      if e.policy.suppressWarnings then none
      else if e.policy.warningsAsErrors then some ⟨d, .error, false⟩
      else some ⟨d, .warning, false⟩
    | .note => some ⟨d, .note, false⟩

def deliver (r : Record) (listeners : List Listener) (name : String) : List Listener :=
  listeners.map fun l => if l.name = name then { l with received := l.received ++ [r] } else l

def record (e : Engine) (r : Record) : Engine :=
  { e with
    trouble := e.trouble.add r
    emitted := e.emitted ++ [r]
    listeners := e.audience.foldl (deliver r) e.listeners }

def diagnose (e : Engine) (d : Diagnostic) : Engine :=
  match e.verdict d with
  | none => e
  | some r => e.record r

def diagnoseAll (e : Engine) (ds : List Diagnostic) : Engine := ds.foldl diagnose e

/-- Attaches a listener; the kind matters only when the name is new. -/
def attach (e : Engine) (name : String) (kind : Listener.Kind) : Engine :=
  { e with
    audience := e.audience ++ [name]
    listeners :=
      if e.listeners.any (·.name = name) then e.listeners
      else e.listeners ++ [{ name, kind }] }

def detach (e : Engine) (name : String) : Engine :=
  { e with audience := e.audience.filter (· ≠ name) }

def listener? (e : Engine) (name : String) : Option Listener :=
  e.listeners.find? (·.name = name)

def count (e : Engine) (c : Code) : Nat := e.emitted.countP (·.diagnostic.code = c)

/-- Forgets that errors occurred, but not the history. -/
def resetErrors (e : Engine) : Engine := { e with trouble := .none }

/-- Whether an attached listener reports a failure of its own. -/
def finish (e : Engine) : Bool :=
  e.audience.any fun name => (e.listener? name).any (·.kind = .failing)

end Engine

end BuildPlanner.Diagnostic
