import BuildPlanner.Build.Parameters
import BuildPlanner.Graph.Basic

/-!
For which destination a module or product is built when its consumer's destination is known.

Macros, plugins and tools are built for the host. So are tests that use a macro or plugin without
going through another module, since they run it while they are compiled. All else is built for
the destination of its consumer.
-/

namespace BuildPlanner.Build

/-- A module as built for a destination. -/
structure ModuleKey where
  module : ModuleId
  destination : Destination
deriving DecidableEq, Repr

/-- A product as built for a destination. -/
structure ProductKey where
  product : ProductId
  destination : Destination
deriving DecidableEq, Repr

end BuildPlanner.Build

namespace BuildPlanner.Graph

open Build

/-- Whether following the dependency leads to a macro or plugin at once. -/
def runsAtCompileTime (g : Graph) : Dependency → Bool
  | .module m => (g.moduleAt m).kind = .codeMacro ∨ (g.moduleAt m).kind = .plugin
  | .product p _ => (g.productAt p).kind = .codeMacro ∨ (g.productAt p).kind = .plugin

def hasCompileTimeDependency (g : Graph) (m : ModuleId) : Bool :=
  (g.moduleAt m).dependencies.any g.runsAtCompileTime

/-- Whether a module is built for the host whatever its consumer is built for. -/
def isHostModule (g : Graph) (m : ModuleId) : Bool :=
  (g.moduleAt m).kind.isHostOnly || ((g.moduleAt m).kind = .test && g.hasCompileTimeDependency m)

def isHostProduct (g : Graph) (p : ProductId) : Bool :=
  (g.productAt p).kind.isHostOnly ||
    ((g.productAt p).kind = .test && (g.productAt p).modules.any g.hasCompileTimeDependency)

def moduleKey (g : Graph) (inherited : Destination) (m : ModuleId) : ModuleKey :=
  ⟨m, if g.isHostModule m then .host else inherited⟩

def productKey (g : Graph) (inherited : Destination) (p : ProductId) : ProductKey :=
  ⟨p, if g.isHostProduct p then .host else inherited⟩

def moduleKey? (g : Graph) (inherited : Destination) (m : ModuleId) : Except Fault ModuleKey := do
  let _ ← g.module m
  return g.moduleKey inherited m

def productKey? (g : Graph) (inherited : Destination) (p : ProductId) :
    Except Fault ProductKey := do
  let _ ← g.product p
  return g.productKey inherited p

end BuildPlanner.Graph
