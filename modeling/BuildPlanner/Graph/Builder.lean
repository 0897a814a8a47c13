import BuildPlanner.Graph.Basic

/-!
Assembling a graph step by step.

Each step appends to the tables, so the position of a new entity is the length of its table
before the step. A step that would give two entities of a package the same name, or a product a
module of another package, is refused. A `Builder` is the graph so far, with the numbers that its
dependencies were given.
-/

namespace BuildPlanner.Graph

/-- The identity is kept as written for display, and in its normal form for comparison. -/
def addPackage (g : Graph) (identity location : String) (tools : Version) (isRoot : Bool) :
    Except Fault Graph :=
  match g.findPackage? identity with
  | some _ => .error .duplicatePackage
  | none =>
    .ok { g with
      packages := g.packages ++
        [{ identity := Name.normalize identity, display := identity, location, tools, isRoot }] }

def addModule (g : Graph) (owner : PackageId) (name : String) (kind : ModuleKind)
    (sources : SourceSet) : Except Fault Graph := do
  match ← g.findModuleIn owner name with
  | some _ => throw .duplicateModule
  | none =>
    return { g with
      packages := g.packages.modify owner fun p =>
        { p with modules := p.modules ++ [g.modules.length] }
      modules := g.modules ++ [{ name, owner, kind, sources }] }

/-- Refuses the modules of other packages. -/
def checkOwned (g : Graph) (owner : PackageId) : List ModuleId → Except Fault Unit
  | [] => .ok ()
  | m :: ms => do
    if (← g.module m).owner ≠ owner then throw .foreignModule
    g.checkOwned owner ms

def addProduct (g : Graph) (owner : PackageId) (name : String) (kind : ProductKind)
    (modules : List ModuleId) : Except Fault Graph := do
  match ← g.findProductIn owner name with
  | some _ => throw .duplicateProduct
  | none =>
    g.checkOwned owner modules
    return { g with
      packages := g.packages.modify owner fun p =>
        { p with products := p.products ++ [g.products.length] }
      products := g.products ++ [{ name, owner, kind, modules }] }

def addDependency (g : Graph) (consumer : ModuleId) (d : Dependency) : Except Fault Graph :=
  if consumer < g.modules.length then
    .ok { g with
      modules := g.modules.modify consumer fun m =>
        { m with dependencies := m.dependencies ++ [d] } }
  else .error .moduleOutOfRange

end BuildPlanner.Graph

namespace BuildPlanner

/-- A graph under construction. A dependency is given a number when it is added, and keeps it. -/
structure Builder where
  graph : Graph := {}
  /-- The numbers of the dependencies of each module, in the order of modules. -/
  numbers : List (List Nat) := []
deriving DecidableEq, Repr

namespace Builder

inductive Call
  | package (identity location : String) (tools : Version) (isRoot : Bool)
  | module (owner : PackageId) (name : String) (kind : ModuleKind) (sources : SourceSet)
  | product (owner : PackageId) (name : String) (kind : ProductKind) (modules : List ModuleId)
  | dependency (consumer : ModuleId) (d : Dependency)
  | take
deriving DecidableEq, Repr

/-- The graph after a call. Taking it leaves an empty one. -/
def Call.apply (g : Graph) : Call → Except Fault Graph
  | package identity location tools isRoot => g.addPackage identity location tools isRoot
  | module owner name kind sources => g.addModule owner name kind sources
  | product owner name kind modules => g.addProduct owner name kind modules
  | dependency consumer d => g.addDependency consumer d
  | take => .ok {}

/-- The numbers after a call. A new dependency is numbered by how many the module has before. -/
def renumber (b : Builder) : Call → List (List Nat)
  | .package .. | .product .. => b.numbers
  | .module .. => b.numbers ++ [[]]
  | .dependency consumer _ =>
    let number := (b.graph.moduleAt consumer).dependencies.length
    b.numbers.modify consumer fun ns => ns ++ [number]
  | .take => []

def perform (b : Builder) (c : Call) : Except Fault Builder := do
  return { graph := ← c.apply b.graph, numbers := b.renumber c }

end Builder

end BuildPlanner
