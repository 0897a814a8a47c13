import BuildPlanner.Graph.Basic

/-!
The listing of a graph: a line for each package, and below it its modules with their dependencies
and its products with their modules.
-/

namespace BuildPlanner.Graph

def printDependency (g : Graph) : Dependency → Except Fault String
  | .module m => do return "    -> module " ++ (← g.module m).name ++ "\n"
  | .product p aliases => do
    let renames := aliases.map fun a => " [" ++ a.name ++ ": " ++ a.replacement ++ "]"
    return "    -> product " ++ (← g.qualifiedProduct p) ++ String.join renames ++ "\n"

def printModule (g : Graph) (m : ModuleId) : Except Fault String := do
  let x ← g.module m
  let dependencies ← x.dependencies.mapM g.printDependency
  return "  module " ++ x.name ++ " (" ++ x.kind.label ++ ")\n" ++ String.join dependencies

def printProduct (g : Graph) (p : ProductId) : Except Fault String := do
  let x ← g.product p
  let modules ← x.modules.mapM fun m => return " " ++ (← g.module m).name
  return "  product " ++ x.name ++ " (" ++ x.kind.label ++ "):" ++ String.join modules ++ "\n"

def printPackage (g : Graph) (p : Package) : Except Fault String := do
  let modules ← p.modules.mapM g.printModule
  let products ← p.products.mapM g.printProduct
  return "package " ++ p.display ++ " (" ++ p.location ++ ", tools-version " ++ p.tools.text ++
    ")" ++ (if p.isRoot then " [root]" else "") ++ "\n" ++ String.join modules ++
    String.join products

def print (g : Graph) : Except Fault String := do
  return String.join (← g.packages.mapM g.printPackage)

end BuildPlanner.Graph
