import BuildPlanner.Alias.Resolution
import BuildPlanner.Build.Reach
import BuildPlanner.Diagnostic.Engine

/-!
Build plans: the module and product builds of a graph, with their names, paths and parts.

`create` resolves aliases, and lays out the builds unless an error was reported. Two modules must
not be built under one name for one destination. A host build of something that is also built for
the target is marked in its name.
-/

namespace BuildPlanner.Build

open Alias (Resolution)
open Diagnostic (Engine)

structure PlannedModule where
  key : ModuleKey
  /-- The name after aliasing. -/
  finalName : String
  buildName : String
  aliases : SortedMap String String
  parameters : Parameters
deriving DecidableEq

structure PlannedProduct where
  key : ProductKey
  kind : ProductKind
  buildName : String
  /-- The module builds that are linked into the product. -/
  parts : List ModuleKey
  parameters : Parameters
deriving DecidableEq

namespace PlannedModule

def tempsPath (m : PlannedModule) : String :=
  appendPath m.parameters.buildPath (m.buildName ++ ".build")

end PlannedModule

namespace PlannedProduct

def binaryPath (p : PlannedProduct) : Except Fault String :=
  p.parameters.binaryPath p.buildName p.kind

end PlannedProduct

structure Plan where
  target : Parameters
  host : Parameters
  resolution : Resolution
  /-- The module builds in the order of modules, host before target. -/
  modules : List PlannedModule
  /-- The product builds in the order of products, host before target. -/
  products : List PlannedProduct
  /-- The builds of the root modules. -/
  roots : List ModuleKey
deriving DecidableEq

namespace Plan

def module? (plan : Plan) (k : ModuleKey) : Option PlannedModule :=
  plan.modules.find? (·.key = k)

def product? (plan : Plan) (k : ProductKey) : Option PlannedProduct :=
  plan.products.find? (·.key = k)

/-- The builds of a module, host first. -/
def builds (plan : Plan) (m : ModuleId) : List PlannedModule :=
  Destination.all.filterMap fun d => plan.module? ⟨m, d⟩

end Plan

/-! ### Layout -/

def parametersFor (target host : Parameters) : Destination → Parameters
  | .host => host
  | .target => target

def planModule (target host : Parameters) (r : Resolution) (k : ModuleKey) :
    Except Fault PlannedModule := do
  let name ← r.finalName k.module
  return {
    key := k
    finalName := name
    buildName := name
    aliases := r.aliases k.module
    parameters := parametersFor target host k.destination }

/-- The first module build that takes the name of an earlier one of another module, behind that
earlier one. -/
def firstClash? : (earlier : List PlannedModule) → List PlannedModule →
    Option (PlannedModule × PlannedModule)
  | _, [] => none
  | earlier, m :: ms =>
    match earlier.find? fun e =>
      e.key.destination = m.key.destination ∧ e.finalName = m.finalName with
    | none => firstClash? (earlier ++ [m]) ms
    | some e =>
      if e.key.module = m.key.module then firstClash? (earlier ++ [m]) ms else some (e, m)

def clashReport (g : Graph) (e m : PlannedModule) : Diagnostic :=
  .destinationConflict (g.moduleAt e.key.module).name (g.ownerOf e.key.module).display
    (g.moduleAt m.key.module).name (g.ownerOf m.key.module).display m.finalName
    m.key.destination.label

/-- Whether a module build is for the host and the module is also built for the target. -/
def isHostDuplicate (keys : List ModuleKey) (k : ModuleKey) : Bool :=
  k.destination = .host && keys.contains ⟨k.module, .target⟩

def markModule (keys : List ModuleKey) (m : PlannedModule) : PlannedModule :=
  if isHostDuplicate keys m.key then { m with buildName := m.finalName ++ "-tool" } else m

def planProduct (g : Graph) (target host : Parameters) (keys : List ProductKey)
    (k : ProductKey) : PlannedProduct :=
  let product := g.productAt k.product
  { key := k
    kind := product.kind
    buildName :=
      if k.destination = .host && keys.contains ⟨k.product, .target⟩ then product.name ++ "-tool"
      else product.name
    parts := product.modules.map (g.moduleKey k.destination)
    parameters := parametersFor target host k.destination }

inductive Layout
  | planned (plan : Plan)
  | clash (report : Diagnostic)

/-- Lays out all builds of a graph whose aliases are resolved, and counts them. -/
def layOut (g : Graph) (target host : Parameters) (r : Resolution) : Counting Layout := do
  let keys := g.reachedModules
  let modules ← countEach (fun _ => { moduleBuilds := 1 }) (planModule target host r) keys
  match firstClash? [] modules with
  | some (e, m) => return .clash (clashReport g e m)
  | none =>
    let modules ← countEach
      (fun m => { hostDuplicates := (isHostDuplicate keys m.key).toNat })
      (fun m => .ok (markModule keys m)) modules
    let linked := g.reachedProducts.filter fun k => (g.productAt k.product).kind.hasBinary
    let products ← countEach (fun _ => { productBuilds := 1 })
      (fun k => .ok (planProduct g target host linked k)) linked
    return .planned {
      target, host, modules, products
      resolution := r
      roots := g.rootModules.map (g.moduleKey .target) }

/-! ### Creation -/

structure Attempt where
  plan : Option Plan
  engine : Engine
  tally : Tally

/-- Resolves aliases and plans all builds. There is no plan if an error is reported. -/
def create (g : Graph) (target host : Parameters) (engine : Engine) : Except Fault Attempt := do
  let outcome ← Alias.resolve g
  let engine := engine.diagnoseAll outcome.log
  if engine.hadError then return { plan := none, engine, tally := outcome.tally }
  if target.destination ≠ .target then throw .targetParameters
  if host.destination ≠ .host then throw .hostParameters
  let (layout, tally) ← (layOut g target host outcome.resolution).run outcome.tally
  match layout with
  | .planned plan => return { plan := some plan, engine, tally }
  | .clash report => return { plan := none, engine := engine.diagnose report, tally }

end BuildPlanner.Build
