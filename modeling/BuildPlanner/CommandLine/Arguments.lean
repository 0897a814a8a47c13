import BuildPlanner.CommandLine.Basic

/-!
The arguments of the command: a document, and options with one or two leading hyphens.

The value of an option follows it as the next argument or behind an equals sign.
-/

namespace BuildPlanner.CommandLine

structure Arguments where
  options : Options
  document : Option String := none
deriving Repr

namespace Arguments

def usage : String :=
  "usage: plan [options] <graph>\n" ++
  "  -target-triple <triple>    triple the root modules are built for\n" ++
  "  -host-triple <triple>      triple macros, plugins and tools are built for\n" ++
  "  -configuration <name>      debug or release\n" ++
  "  -scratch-path <path>       root of the build directory\n" ++
  "  -print-traversal           print the module builds depth-first\n" ++
  "  -print-recursive-dependencies <module>\n" ++
  "                             print everything a module depends on\n" ++
  "  -print-stats               print planning statistics\n"

def start : Arguments := { options := { hostTriple := "x86_64-unknown-linux-gnu" } }

def setFlag? (o : Options) : String → Option Options
  | "print-traversal" => some { o with printTraversal := true }
  | "print-stats" => some { o with printStats := true }
  | _ => none

def setValue? (o : Options) (value : String) : String → Option Options
  | "target-triple" => some { o with targetTriple := value }
  | "host-triple" => some { o with hostTriple := value }
  | "configuration" => some { o with configuration := value }
  | "scratch-path" => some { o with scratchPath := value }
  | "print-recursive-dependencies" => some { o with recursiveDependencies := value }
  | _ => none

/-- The name of an option and the value behind an equals sign; nothing for other arguments. -/
def option? (argument : String) : Option (String × Option String) :=
  match argument.toList with
  | '-' :: cs =>
    let cs := if cs.head? = some '-' then cs.tail else cs
    let parts := Text.cut '=' cs
    some (String.ofList parts.1,
      if '=' ∈ cs then some (String.ofList parts.2) else none)
  | _ => none

/-- Takes in an argument that stands for itself: the document, once. -/
def setDocument? (a : Arguments) (path : String) : Option Arguments :=
  if a.document.isNone then some { a with document := some path } else none

/-- Reads the arguments in turn; nothing comes of arguments that cannot be read. -/
def read? (a : Arguments) : List String → Option Arguments
  | [] => some a
  | argument :: rest =>
    match option? argument with
    | none => do (← a.setDocument? argument).read? rest
    | some (name, some value) => do
      read? { a with options := ← setValue? a.options value name } rest
    | some (name, none) =>
      match setFlag? a.options name with
      | some options => read? { a with options } rest
      | none =>
        match rest with
        | [] => none
        | value :: rest => do
          read? { a with options := ← setValue? a.options value name } rest

end Arguments

end BuildPlanner.CommandLine
