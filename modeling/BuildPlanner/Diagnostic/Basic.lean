import BuildPlanner.Name

/-!
What can be wrong with a package graph, and how each problem is worded.

A `Diagnostic` carries the names it talks about. Its `code` gives the severity, whether planning
has to stop there, and the template that its `arguments` are put into.
-/

namespace BuildPlanner

inductive Severity
  | error
  | warning
  | note
deriving DecidableEq, Repr

namespace Severity

def label : Severity → String
  | error => "error"
  | warning => "warning"
  | note => "note"

def all : List Severity := [error, warning, note]

def ofLabel? (s : String) : Option Severity := all.find? (·.label = s)

end Severity

namespace Diagnostic

inductive Argument
  | text (s : String)
  | list (names : List String)
  | number (n : UInt32)
deriving DecidableEq, Repr

inductive Code
  | moduleAliasInvalid
  | moduleAliasAmbiguous
  | moduleAliasConflict
  | moduleAliasMapConflict
  | moduleAliasNonSubstitutable
  | moduleAliasUnapplied
  | moduleAliasingRequiresTools
  | duplicateProductName
  | productAliasingRequiresTools
  | dependencyCycle
  | destinationConflict
deriving DecidableEq, Repr

namespace Code

def all : List Code :=
  [moduleAliasInvalid, moduleAliasAmbiguous, moduleAliasConflict, moduleAliasMapConflict,
    moduleAliasNonSubstitutable, moduleAliasUnapplied, moduleAliasingRequiresTools,
    duplicateProductName, productAliasingRequiresTools, dependencyCycle, destinationConflict]

def label : Code → String
  | moduleAliasInvalid => "module_alias_invalid"
  | moduleAliasAmbiguous => "module_alias_ambiguous_in_product"
  | moduleAliasConflict => "module_alias_conflict"
  | moduleAliasMapConflict => "module_alias_map_conflict"
  | moduleAliasNonSubstitutable => "module_alias_non_substitutable_sources"
  | moduleAliasUnapplied => "module_alias_unapplied"
  | moduleAliasingRequiresTools => "module_aliasing_requires_tools_version"
  | duplicateProductName => "duplicate_product_name"
  | productAliasingRequiresTools => "product_aliasing_requires_tools_version"
  | dependencyCycle => "dependency_cycle"
  | destinationConflict => "destination_conflict"

def ofLabel? (s : String) : Option Code := all.find? (·.label = s)

def severity : Code → Severity
  | moduleAliasNonSubstitutable | moduleAliasUnapplied | moduleAliasingRequiresTools
  | productAliasingRequiresTools => .warning
  | _ => .error

/-- After a fatal problem nothing more is reported unless the policy asks for it. -/
def isFatal : Code → Bool
  | dependencyCycle | destinationConflict => true
  | _ => false

def template : Code → String
  | moduleAliasInvalid =>
    "empty or invalid module alias; ['%0': '%1'] requested by module '%2'"
  | moduleAliasAmbiguous =>
    "multiple aliases: [%0] found for module '%1' in product '%2' from package '%3'"
  | moduleAliasConflict =>
    "conflicting aliases: [%0] requested for module '%1' in product '%2' from package '%3'"
  | moduleAliasMapConflict =>
    "module '%0' refers to '%1' through conflicting aliases: [%2]"
  | moduleAliasNonSubstitutable =>
    "module '%0' in product '%1' from package '%2' contains non-Swift sources; their symbol " ++
      "names are not renamed by the module alias and may collide"
  | moduleAliasUnapplied =>
    "module alias ['%0': '%1'] on product '%2' from package '%3' does not match any module in " ++
      "the product"
  | moduleAliasingRequiresTools =>
    "module aliasing requires tools-version %0 or later, so module '%1' of package '%2' keeps " ++
      "its original name"
  | duplicateProductName => "multiple products named '%0' in: %1"
  | productAliasingRequiresTools =>
    "product aliasing requires tools-version %0 or later, so it is not supported by '%1'"
  | dependencyCycle => "cyclic dependency declaration found: %0"
  | destinationConflict =>
    "modules '%0' from package '%1' and '%2' from package '%3' both build as '%4' for the %5 " ++
      "destination"

end Code

end Diagnostic

/-- A problem, with the names it concerns. Packages are given by their display names, except in
the two diagnostics on products of equal name, which give identities. -/
inductive Diagnostic
  | moduleAliasInvalid (name replacement requester : String)
  | moduleAliasAmbiguous (replacements : List String) (module product package : String)
  | moduleAliasConflict (replacements : List String) (module product package : String)
  | moduleAliasMapConflict (module name : String) (others : List String)
  | moduleAliasNonSubstitutable (module product package : String)
  | moduleAliasUnapplied (name replacement product package : String)
  | moduleAliasingRequiresTools (version module package : String)
  | duplicateProductName (product : String) (identities : List String)
  | productAliasingRequiresTools (version identity : String)
  | dependencyCycle (modules : List String)
  | destinationConflict (module package other otherPackage buildName destination : String)
deriving DecidableEq, Repr

namespace Diagnostic

def code : Diagnostic → Code
  | moduleAliasInvalid .. => .moduleAliasInvalid
  | moduleAliasAmbiguous .. => .moduleAliasAmbiguous
  | moduleAliasConflict .. => .moduleAliasConflict
  | moduleAliasMapConflict .. => .moduleAliasMapConflict
  | moduleAliasNonSubstitutable .. => .moduleAliasNonSubstitutable
  | moduleAliasUnapplied .. => .moduleAliasUnapplied
  | moduleAliasingRequiresTools .. => .moduleAliasingRequiresTools
  | duplicateProductName .. => .duplicateProductName
  | productAliasingRequiresTools .. => .productAliasingRequiresTools
  | dependencyCycle .. => .dependencyCycle
  | destinationConflict .. => .destinationConflict

/-- A cycle is written as the names along it, joined by arrows. -/
def arguments : Diagnostic → List Argument
  | moduleAliasInvalid o r m => [.text o, .text r, .text m]
  | moduleAliasAmbiguous rs o p k => [.list rs, .text o, .text p, .text k]
  | moduleAliasConflict rs o p k => [.list rs, .text o, .text p, .text k]
  | moduleAliasMapConflict m n os => [.text m, .text n, .list os]
  | moduleAliasNonSubstitutable m p k => [.text m, .text p, .text k]
  | moduleAliasUnapplied o r p k => [.text o, .text r, .text p, .text k]
  | moduleAliasingRequiresTools v m k => [.text v, .text m, .text k]
  | duplicateProductName p is => [.text p, .list is]
  | productAliasingRequiresTools v i => [.text v, .text i]
  | dependencyCycle ms => [.text (" -> ".intercalate ms)]
  | destinationConflict m k m' k' n d => [.text m, .text k, .text m', .text k', .text n, .text d]

/-- The diagnostic of a given kind with given arguments, if they fit. -/
def ofArguments? : Code → List Argument → Option Diagnostic
  | .moduleAliasInvalid, [.text o, .text r, .text m] => some (moduleAliasInvalid o r m)
  | .moduleAliasAmbiguous, [.list rs, .text o, .text p, .text k] =>
    some (moduleAliasAmbiguous rs o p k)
  | .moduleAliasConflict, [.list rs, .text o, .text p, .text k] =>
    some (moduleAliasConflict rs o p k)
  | .moduleAliasMapConflict, [.text m, .text n, .list os] => some (moduleAliasMapConflict m n os)
  | .moduleAliasNonSubstitutable, [.text m, .text p, .text k] =>
    some (moduleAliasNonSubstitutable m p k)
  | .moduleAliasUnapplied, [.text o, .text r, .text p, .text k] =>
    some (moduleAliasUnapplied o r p k)
  | .moduleAliasingRequiresTools, [.text v, .text m, .text k] =>
    some (moduleAliasingRequiresTools v m k)
  | .duplicateProductName, [.text p, .list is] => some (duplicateProductName p is)
  | .productAliasingRequiresTools, [.text v, .text i] => some (productAliasingRequiresTools v i)
  | .dependencyCycle, [.text s] => some (dependencyCycle [s])
  | .destinationConflict, [.text m, .text k, .text m', .text k', .text n, .text d] =>
    some (destinationConflict m k m' k' n d)
  | _, _ => none

end Diagnostic

end BuildPlanner
