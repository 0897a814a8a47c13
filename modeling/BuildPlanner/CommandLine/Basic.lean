import BuildPlanner.Build.Printer
import BuildPlanner.Document.Assembly

/-!
The command: load a graph document, plan the build and print what was asked for.

The command ends with status 0, or with status 1 and a message on the error stream.
-/

namespace BuildPlanner.CommandLine

open Build (Parameters Configuration Plan)
open Diagnostic (Engine)

structure Options where
  hostTriple : String
  /-- Empty for the host triple. -/
  targetTriple : String := ""
  configuration : String := "debug"
  scratchPath : String := ".build"
  printTraversal : Bool := false
  /-- The module whose dependencies are printed; empty for none. -/
  recursiveDependencies : String := ""
  printStats : Bool := false
deriving DecidableEq, Repr

inductive Input
  | missing
  | unreadable
  | data (t : Document.Data)

/-- What a run writes, and its exit status. The error stream has the diagnostics first, then the
counts, and the failure last. -/
structure Report where
  status : Nat
  out : String := ""
  diagnostics : String := ""
  /-- The counts of planning, if they were asked for and the run came that far. -/
  tally : Option Tally := none
  failure : String := ""
deriving DecidableEq, Repr

namespace Report

/-- What goes to the error stream but for the counts. -/
def err (r : Report) : String := r.diagnostics ++ r.failure

def errorStream (r : Report) : String :=
  r.diagnostics ++ (r.tally.map (·.print)).getD "" ++ r.failure

end Report

inductive Failure
  | unknownConfiguration (name : String)
  | missingFile
  | malformed
  | refused (r : Document.Refusal)
  | unknownModule (spelling : String)
  | moduleNotBuilt (spelling : String)
deriving DecidableEq, Repr

def Failure.message : Failure → String
  | unknownConfiguration name => "unknown configuration '" ++ name ++ "'"
  | missingFile => "No such file or directory"
  | malformed => "malformed package graph"
  | refused r => r.message
  | unknownModule spelling => "no module named '" ++ spelling ++ "'"
  | moduleNotBuilt spelling => "module '" ++ spelling ++ "' is not part of the build"

def Failure.line (f : Failure) : String := "error: " ++ f.message ++ "\n"

def load : Input → Except Failure Graph
  | .missing => .error .missingFile
  | .unreadable => .error .malformed
  | .data t =>
    match Document.decode? t with
    | none => .error .malformed
    | some d => d.toGraph.mapError .refused

/-- The module of a graph that a spelling refers to: a name, or a package and a name with a colon
between them. -/
def lookupModule (g : Graph) (spelling : String) : Except Fault (Option ModuleId) :=
  let parts := Text.cut ':' spelling.toList
  if parts.2 = [] then g.findModule (String.ofList parts.1)
  else
    match g.findPackage? (String.ofList parts.1) with
    | none => .ok none
    | some p => g.findModuleIn p (String.ofList parts.2)

def printDependencies (plan : Plan) (g : Graph) (spelling : String) :
    Except Fault (Except Failure String) := do
  match ← lookupModule g spelling with
  | none => return .error (.unknownModule spelling)
  | some m =>
    match plan.builds m with
    | [] => return .error (.moduleNotBuilt spelling)
    | builds => return .ok (String.join (← builds.mapM (plan.printDependencies g)))

def report (o : Options) (plan : Plan) (g : Graph) (r : Report) : Except Fault Report := do
  let used := if plan.resolution.aliasingUsed then "used" else "not used"
  let traversal ← if o.printTraversal then plan.printVisits g else pure ""
  let out := "module aliasing: " ++ used ++ "\n" ++ (← plan.print g) ++ traversal
  if o.recursiveDependencies = "" then return { r with out }
  match ← printDependencies plan g o.recursiveDependencies with
  | .ok text => return { r with out := out ++ text }
  | .error f => return { r with status := 1, out, failure := f.line }

/-- Plans the build of a graph, printing diagnostics as they are reported. -/
def plan (o : Options) (configuration : Configuration) (g : Graph) : Except Fault Report := do
  let triple := if o.targetTriple = "" then o.hostTriple else o.targetTriple
  let target : Parameters := ⟨.target, triple, configuration, o.scratchPath⟩
  let host : Parameters := ⟨.host, o.hostTriple, configuration, o.scratchPath⟩
  let engine := ({} : Engine).attach "printer" .printing
  let attempt ← Build.create g target host engine
  let diagnostics ← ((attempt.engine.listener? "printer").map (·.printed)).getD (.ok "")
  let tally := if o.printStats then some attempt.tally else none
  match attempt.plan with
  | none => return { status := 1, diagnostics, tally }
  | some plan =>
    if attempt.engine.finish then return { status := 1, diagnostics, tally }
    report o plan g { status := 0, diagnostics, tally }

def run (o : Options) (input : Input) : Except Fault Report :=
  match Configuration.ofLabel? o.configuration with
  | none => .ok { status := 1, failure := (Failure.unknownConfiguration o.configuration).line }
  | some configuration =>
    match load input with
    | .error (.refused (.fault f)) => .error f
    | .error f => .ok { status := 1, failure := f.line }
    | .ok g => plan o configuration g

end BuildPlanner.CommandLine
