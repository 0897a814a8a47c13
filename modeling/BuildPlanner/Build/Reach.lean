import BuildPlanner.Build.Destination

/-!
What has to be built: everything that the root products and root modules lead to.

A product leads to its modules and a module to its dependencies, each at the destination that
follows from that of the consumer.
-/

namespace BuildPlanner.Build

/-- A module or product as built for a destination. -/
inductive Node
  | module (key : ModuleKey)
  | product (key : ProductKey)
deriving DecidableEq, Repr

/-- Depth-first search: adds what `x` leads to. Every step inwards adds an element, so the number
of elements bounds the depth. -/
def explore {α : Type} [DecidableEq α] (next : α → List α) : (fuel : Nat) → List α → α → List α
  | 0, seen, _ => seen
  | fuel + 1, seen, x =>
    if x ∈ seen then seen else (next x).foldl (explore next fuel) (x :: seen)

end BuildPlanner.Build

namespace BuildPlanner.Graph

open Build

def dependencyNode (g : Graph) (d : Destination) : Dependency → Node
  | .module m => .module (g.moduleKey d m)
  | .product p _ => .product (g.productKey d p)

/-- What a module or product leads to. -/
def successors (g : Graph) : Node → List Node
  | .module k => (g.moduleAt k.module).dependencies.map (g.dependencyNode k.destination)
  | .product k =>
    (g.productAt k.product).modules.map fun m => .module (g.moduleKey k.destination m)

/-- The root products and root modules, as built for the target or, where they must, the host. -/
def rootNodes (g : Graph) : List Node :=
  g.rootProducts.map (fun p => .product (g.productKey .target p)) ++
    g.rootModules.map fun m => .module (g.moduleKey .target m)

def moduleKeys (g : Graph) : List ModuleKey :=
  g.moduleIds.flatMap fun m => Destination.all.map fun d => ⟨m, d⟩

def productKeys (g : Graph) : List ProductKey :=
  g.productIds.flatMap fun p => Destination.all.map fun d => ⟨p, d⟩

/-- Everything that has to be built. -/
def reachedNodes (g : Graph) : List Node :=
  g.rootNodes.foldl
    (explore g.successors (g.moduleKeys.length + g.productKeys.length)) []

def reachedModules (g : Graph) : List ModuleKey :=
  let nodes := g.reachedNodes
  g.moduleKeys.filter fun k => nodes.contains (.module k)

def reachedProducts (g : Graph) : List ProductKey :=
  let nodes := g.reachedNodes
  g.productKeys.filter fun k => nodes.contains (.product k)

end BuildPlanner.Graph
