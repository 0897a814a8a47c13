import BuildPlanner.CommandLine.Arguments
import BuildPlanner.Document.Notation

/-!
The command-line program: reads the document, runs the command and writes its report.
-/

open BuildPlanner CommandLine

def inputAt (path : String) : IO Input := do
  try
    let text ← IO.FS.readFile path
    return (Document.Notation.parse? text).elim .unreadable .data
  catch _ => return .missing

def writeReport (r : Report) : IO UInt32 := do
  IO.print r.out
  IO.eprint r.errorStream
  return r.status.toUInt32

def main (arguments : List String) : IO UInt32 := do
  match Arguments.read? .start arguments with
  | some { options, document := some path } =>
    match CommandLine.run options (← inputAt path) with
    | .ok r => writeReport r
    | .error f =>
      IO.eprintln f.message
      return 134
  | _ =>
    IO.eprint Arguments.usage
    return 1
