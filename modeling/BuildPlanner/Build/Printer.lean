import BuildPlanner.Build.Traversal

/-!
The listings of plans, of walks through them, and of the dependencies of a build.
-/

namespace BuildPlanner.Build

def Parameters.summary (b : Parameters) : String :=
  b.triple ++ " (" ++ b.configuration.label ++ ")\n"

def PlannedModule.print (m : PlannedModule) (g : Graph) : Except Fault String := do
  let renamed := m.finalName ≠ (← g.module m.key.module).name
  return "module " ++ (← g.qualifiedModule m.key.module) ++ " [" ++ m.key.destination.label ++
    "] as " ++ m.buildName ++ (if renamed then " (alias " ++ m.finalName ++ ")" else "") ++
    Alias.printAliases m.aliases ++ "\n"

def printPart (g : Graph) (k : ModuleKey) : Except Fault String := do
  return "  module " ++ (← g.qualifiedModule k.module) ++ " [" ++ k.destination.label ++ "]\n"

def PlannedProduct.print (p : PlannedProduct) (g : Graph) : Except Fault String := do
  let parts ← p.parts.mapM (printPart g)
  return "product " ++ (← g.qualifiedProduct p.key.product) ++ " [" ++ p.key.destination.label ++
    "] as " ++ p.buildName ++ " -> " ++ (← p.binaryPath) ++ "\n" ++ String.join parts

namespace Plan

def print (plan : Plan) (g : Graph) : Except Fault String := do
  let modules ← plan.modules.mapM (·.print g)
  let products ← plan.products.mapM (·.print g)
  return "target: " ++ plan.target.summary ++ "host: " ++ plan.host.summary ++
    String.join modules ++ String.join products

def printVisit (plan : Plan) (v : Visit) : String :=
  String.ofList (List.replicate (2 * v.depth) ' ') ++
    ((plan.module? v.key).map (·.buildName)).getD "" ++
    " (" ++ v.key.destination.label ++ ")\n"

def printVisits (plan : Plan) (g : Graph) : Except Fault String := do
  return "traversal:\n" ++ String.join ((← plan.visits g).map plan.printVisit)

end Plan

/-- Where the binary of a dependency lies, if it has one. -/
def printBinary : Option PlannedProduct → Except Fault String
  | none => .ok ""
  | some p => do return " -> " ++ (← p.binaryPath)

def PlannedDependency.print (g : Graph) : PlannedDependency → Except Fault String
  | .product k plan => do
    return "  product " ++ (← g.qualifiedProduct k.product) ++ " (" ++ k.destination.label ++
      ")" ++ (← printBinary plan) ++ "\n"
  | .module m => do
    return "  module " ++ (← g.qualifiedModule m.key.module) ++ " as '" ++ m.buildName ++ "' (" ++
      m.key.destination.label ++ ")\n"

/-- A build and everything that it depends on. -/
def Plan.printDependencies (plan : Plan) (g : Graph) (m : PlannedModule) :
    Except Fault String := do
  let lines ← (← plan.recursiveDependencies g m.key).mapM (PlannedDependency.print g)
  return (← g.qualifiedModule m.key.module) ++ " (" ++ m.key.destination.label ++ "):\n" ++
    String.join lines

end BuildPlanner.Build
