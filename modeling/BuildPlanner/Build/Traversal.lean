import BuildPlanner.Build.Plan

/-!
Walks through the builds of a plan.

The graph may have grown since the plan was made, so a walk can meet a build that was not planned,
or a cycle. A walk goes inwards only from planned builds that are not on its path, so the number
of planned builds bounds its depth.
-/

namespace BuildPlanner.Build

/-- The builds that a dependency leads to, each with the fault of looking it up. -/
def dependencySlots (g : Graph) (d : Destination) : Dependency → List (Except Fault ModuleKey)
  | .module m => [g.moduleKey? d m]
  | .product p _ =>
    match g.productKey? d p with
    | .error f => [.error f]
    | .ok k => (g.productAt p).modules.map (g.moduleKey? k.destination)

/-- The child builds of a build, in the order of its dependencies. -/
def slots (g : Graph) (k : ModuleKey) : List (Except Fault ModuleKey) :=
  (g.moduleAt k.module).dependencies.flatMap (dependencySlots g k.destination)

/-! ### Visits -/

structure Visit where
  key : ModuleKey
  parent : Option ModuleKey
  depth : Nat
deriving DecidableEq, Repr

structure Tour where
  visits : List Visit := []
  expanded : List ModuleKey := []

namespace Plan

/-- Arrives at a build along `path`, innermost build first, and walks on from it on the first
arrival. -/
def tour (plan : Plan) (g : Graph) : (fuel : Nat) → (path : List ModuleKey) → Tour → ModuleKey →
    Except Fault Tour
  | fuel, path, t, k => do
    if (plan.module? k).isNone then throw .unplannedVisit
    if k ∈ path then throw (.dependencyCycle (← g.qualifiedModule k.module))
    let _ ← g.module k.module
    let visits := t.visits ++ [{ key := k, parent := path.head?, depth := path.length + 1 }]
    if k ∈ t.expanded then return { t with visits }
    match fuel with
    | 0 => return { t with visits }
    | fuel + 1 =>
      (slots g k).foldlM (fun t slot => do plan.tour g fuel (k :: path) t (← slot))
        { visits, expanded := k :: t.expanded }

def visits (plan : Plan) (g : Graph) : Except Fault (List Visit) := do
  return (← plan.roots.foldlM (plan.tour g plan.modules.length []) {}).visits

end Plan

/-! ### Dependencies -/

/-- A dependency of a planned build. A product has no plan of its own if it has no binary. -/
inductive PlannedDependency
  | product (key : ProductKey) (plan : Option PlannedProduct)
  | module (plan : PlannedModule)
deriving DecidableEq

namespace Plan

def planned (plan : Plan) (k : ModuleKey) : Except Fault PlannedModule :=
  match plan.module? k with
  | some m => .ok m
  | none => .error .unplannedDependency

/-- What a module's dependency stands for in a build for the given destination. -/
def directDependency (plan : Plan) (g : Graph) (d : Destination) :
    Dependency → Except Fault PlannedDependency
  | .module m => do return .module (← plan.planned (← g.moduleKey? d m))
  | .product p _ => do
    let k ← g.productKey? d p
    return .product k (plan.product? k)

def directDependencies (plan : Plan) (g : Graph) (k : ModuleKey) :
    Except Fault (List PlannedDependency) := do
  (← g.module k.module).dependencies.mapM (plan.directDependency g k.destination)

end Plan

/-- The dependencies found so far, and the keys of all that was met. -/
structure Closure where
  modules : List ModuleKey := []
  products : List ProductKey := []
  found : List PlannedDependency := []

namespace Plan

/-- Lists a product on its first occurrence. -/
def closeProduct (plan : Plan) (c : Closure) (k : ProductKey) : Closure :=
  if k ∈ c.products then c
  else
    { c with
      products := k :: c.products
      found := c.found ++ [.product k (plan.product? k)] }

/-- Lists the product that a dependency leads to, if it leads to one. -/
def closeDependency (plan : Plan) (g : Graph) (d : Destination) (c : Closure) :
    Dependency → Except Fault Closure
  | .module _ => .ok c
  | .product p _ => do return plan.closeProduct c (← g.productKey? d p)

/-- Takes in a build and everything behind it by means of `expand`, on its first occurrence. -/
def closeModule (plan : Plan) (expand : Closure → ModuleKey → Except Fault Closure)
    (c : Closure) (slot : Except Fault ModuleKey) : Except Fault Closure := do
  let k ← slot
  if k ∈ c.modules then return c
  let m ← plan.planned k
  expand { c with modules := k :: c.modules, found := c.found ++ [.module m] } k

/-- Takes in everything behind a build. -/
def close (plan : Plan) (g : Graph) : (fuel : Nat) → Closure → ModuleKey → Except Fault Closure
  | 0, c, _ => return c
  | fuel + 1, c, k => do
    (← g.module k.module).dependencies.foldlM (fun c dependency => do
      let c ← plan.closeDependency g k.destination c dependency
      (dependencySlots g k.destination dependency).foldlM
        (plan.closeModule (plan.close g fuel)) c) c

/-- Everything that a build depends on, in the order of a depth-first walk. -/
def recursiveDependencies (plan : Plan) (g : Graph) (k : ModuleKey) :
    Except Fault (List PlannedDependency) := do
  return (← plan.close g (plan.modules.length + 1) { modules := [k] } k).found

end Plan

end BuildPlanner.Build
