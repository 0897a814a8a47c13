import BuildPlanner.Diagnostic.Basic
import BuildPlanner.Graph.Basic

/-!
Which alias requests of a module take effect.

A dependency whose requests include an invalid module name loses all its requests. So does one
that asks for another name than an earlier dependency on a product of the same package does.
-/

namespace BuildPlanner.Alias

/-- The requests that can have an effect: no name is replaced by itself, and only the first
request for a name counts. -/
def effective (requests : List AliasRequest) : List AliasRequest :=
  requests.foldl (fun kept r =>
    if r.name = r.replacement ∨ kept.any (·.name = r.name) then kept
    else kept ++ [r]) []

/-- The result of examining dependencies of a module one after the other. -/
structure Screening where
  /-- Replacements asked for so far; the first one for a package and a name counts. -/
  claims : List ((PackageId × String) × String) := []
  /-- The requests that take effect, by the position of the dependency. -/
  surviving : List (Nat × List AliasRequest) := []
  log : List Diagnostic := []

/-- The report that a request disagrees with an earlier one. -/
def clash? (g : Graph) (claims : List ((PackageId × String) × String)) (p : ProductId)
    (r : AliasRequest) : Option Diagnostic :=
  let product := g.productAt p
  match claims.lookup (product.owner, r.name) with
  | none => none
  | some earlier =>
    if earlier = r.replacement then none
    else some (.moduleAliasAmbiguous [earlier, r.replacement] r.name product.name
      (g.packageAt product.owner).display)

/-- The reports of the requests for invalid module names. -/
def invalidNames (requester : String) (requests : List AliasRequest) : List Diagnostic :=
  (requests.filter fun r => !Name.isValid r.replacement).map fun r =>
    .moduleAliasInvalid r.name r.replacement requester

namespace Screening

/-- Examines the requests on a product at the given position of the dependency list. -/
def examine (g : Graph) (requester : String) (s : Screening) (order : Nat) (p : ProductId)
    (requests : List AliasRequest) : Screening :=
  let invalid := invalidNames requester requests
  if invalid ≠ [] then { s with log := s.log ++ invalid }
  else
    let kept := effective requests
    let clashes := kept.filterMap (clash? g s.claims p)
    { claims := s.claims ++ kept.map fun r => (((g.productAt p).owner, r.name), r.replacement)
      surviving :=
        if clashes = [] ∧ kept ≠ [] then s.surviving ++ [(order, kept)] else s.surviving
      log := s.log ++ clashes }

def add (g : Graph) (requester : String) (s : Screening) : Dependency × Nat → Screening
  | (.module _, _) => s
  | (.product p requests, order) => s.examine g requester order p requests

def ofModule (g : Graph) (m : Module) : Screening :=
  m.dependencies.zipIdx.foldl (add g m.name) {}

/-- The requests that take effect on the dependency at a position. -/
def requests (s : Screening) (order : Nat) : List AliasRequest :=
  (s.surviving.lookup order).getD []

end Screening

def isUsed (g : Graph) : Bool :=
  g.modules.any fun m => m.dependencies.any fun d => !d.aliases.isEmpty

end BuildPlanner.Alias
