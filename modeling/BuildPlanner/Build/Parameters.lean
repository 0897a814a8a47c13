import BuildPlanner.Build.Path
import BuildPlanner.Fault
import BuildPlanner.Graph.Kind
import BuildPlanner.Text.Fields

/-!
Where and how the parts of a build are put: destinations, configurations, target triples, and the
names of build directories and binaries that follow from them.
-/

namespace BuildPlanner.Build

/-- Which machine something is built for: the one that builds, or the one that is built for. -/
inductive Destination
  | host
  | target
deriving DecidableEq, Repr, Inhabited

namespace Destination

def all : List Destination := [host, target]

def label : Destination → String
  | host => "host"
  | target => "target"

def ofLabel? (s : String) : Option Destination := all.find? (·.label = s)

end Destination

inductive Configuration
  | debug
  | release
deriving DecidableEq, Repr, Inhabited

namespace Configuration

def all : List Configuration := [debug, release]

def label : Configuration → String
  | debug => "debug"
  | release => "release"

def ofLabel? (s : String) : Option Configuration := all.find? (·.label = s)

end Configuration

/-- The operating systems that differ in the names of binaries. -/
inductive System
  | darwin
  | windows
  | wasi
  | other
deriving DecidableEq, Repr

namespace System

/-- The beginnings of the names of the systems whose files are named in a way of their own. All
others, such as `linux` or `freebsd`, name them alike. Of the Darwin family `xros`, `visionos`,
`driverkit` and `bridgeos` are left out, and count as `other`. -/
def names : List (String × System) :=
  [("windows", windows), ("win32", windows), ("wasi", wasi), ("darwin", darwin),
    ("macos", darwin), ("ios", darwin), ("tvos", darwin), ("watchos", darwin)]

/-- The operating system is the third part of a triple; version numbers may follow its name. -/
def ofTriple (triple : String) : System :=
  match (Text.fields '-' triple.toList)[2]? with
  | none => other
  | some part =>
    match names.find? fun n => n.1.toList.isPrefixOf part with
    | none => other
    | some n => n.2

end System

structure Parameters where
  destination : Destination
  triple : String
  configuration : Configuration
  scratch : String
deriving DecidableEq, Repr

namespace Parameters

def system (b : Parameters) : System := .ofTriple b.triple

def dataPath (b : Parameters) : String := appendPath b.scratch b.triple

def buildPath (b : Parameters) : String := appendPath b.dataPath b.configuration.label

def executableExtension (b : Parameters) : String :=
  match b.system with
  | .windows => ".exe"
  | .wasi => ".wasm"
  | .darwin | .other => ""

def dynamicPrefix (b : Parameters) : String :=
  match b.system with
  | .windows => ""
  | .darwin | .wasi | .other => "lib"

def dynamicExtension (b : Parameters) : String :=
  match b.system with
  | .darwin => ".dylib"
  | .windows => ".dll"
  | .wasi => ".wasm"
  | .other => ".so"

def staticExtension (b : Parameters) : String :=
  match b.system with
  | .windows => ".lib"
  | .darwin | .wasi | .other => ".a"

/-- Tests are bundles, except that they are plain executables under WASI. -/
def testBinary (b : Parameters) (name : String) : String :=
  match b.system with
  | .wasi => name ++ ".wasm"
  | .darwin =>
    appendPath (appendPath (appendPath (name ++ ".xctest") "Contents") "MacOS") name
  | .windows | .other => name ++ ".xctest"

/-- Where the binary of a product lies in the build directory. -/
def binaryName (b : Parameters) (name : String) : ProductKind → Except Fault String
  | .executable | .tool | .codeMacro => .ok (name ++ b.executableExtension)
  | .staticLibrary => .ok ("lib" ++ name ++ b.staticExtension)
  | .dynamicLibrary => .ok (b.dynamicPrefix ++ name ++ b.dynamicExtension)
  | .test => .ok (b.testBinary name)
  | .automaticLibrary | .plugin => .error .noBinary

def binaryPath (b : Parameters) (name : String) (kind : ProductKind) : Except Fault String := do
  return appendPath b.buildPath (← b.binaryName name kind)

end Parameters

end BuildPlanner.Build
