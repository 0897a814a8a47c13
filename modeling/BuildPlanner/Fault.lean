/-!
Expectations of this library that a caller can break.

A fault ends the computation it occurs in. Problems of the user's input are reported as
diagnostics or as document errors instead.
-/

namespace BuildPlanner

inductive Fault
  | packageOutOfRange
  | moduleOutOfRange
  | productOutOfRange
  | duplicatePackage
  | duplicateModule
  | duplicateProduct
  | foreignModule
  | unreadableIndex
  | indexOutOfRange
  | renamedWithoutProduct
  | renamedWithoutAlias
  | notInBuild
  | targetParameters
  | hostParameters
  | noBinary
  | unplannedVisit
  | unplannedDependency
  | dependencyCycle (through : String)
deriving DecidableEq, Repr

namespace Fault

def message : Fault → String
  | packageOutOfRange => "package out of range"
  | moduleOutOfRange => "module out of range"
  | productOutOfRange => "product out of range"
  | duplicatePackage => "duplicate package identity"
  | duplicateModule => "duplicate module in package"
  | duplicateProduct => "duplicate product in package"
  | foreignModule => "a product can only contain modules of its own package"
  | unreadableIndex => "Unparseable argument index value?"
  | indexOutOfRange => "Out-of-range argument index"
  | renamedWithoutProduct => "renamed without a product boundary"
  | renamedWithoutAlias => "renamed module has no alias"
  | notInBuild => "module is not part of the build"
  | targetParameters => "destination parameters must describe the target"
  | hostParameters => "tools parameters must describe the host"
  | noBinary => "product has no binary of its own"
  | unplannedVisit => "traversal reached a module that was not planned"
  | unplannedDependency => "dependency was not planned"
  | dependencyCycle through => "dependency cycle through '" ++ through ++ "'"

/-- Only a dependency cycle met on a walk is fatal to the whole program. -/
def isFatal : Fault → Bool
  | dependencyCycle _ => true
  | _ => false

end Fault

end BuildPlanner
