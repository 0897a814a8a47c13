import BuildPlanner.Fault
import BuildPlanner.Graph.Kind
import BuildPlanner.Name
import BuildPlanner.Version

/-!
Packages, their modules and products, and the dependencies of modules.

An entity is referred to by its position in the table of its sort. The functions `package`,
`module` and `product` refuse a position that is out of range; `moduleAt` and its siblings give a
blank entity there, for use on graphs without dangling references (`Graph.IsClosed`).
-/

namespace BuildPlanner

abbrev PackageId := Nat
abbrev ModuleId := Nat
abbrev ProductId := Nat

/-- The wish to see a module under another name. -/
structure AliasRequest where
  name : String
  replacement : String
deriving DecidableEq, Repr, Inhabited

/-- A dependency of a module. Aliases apply to the modules seen through a product. -/
inductive Dependency
  | module (target : ModuleId)
  | product (target : ProductId) (aliases : List AliasRequest)
deriving DecidableEq, Repr, Inhabited

def Dependency.aliases : Dependency → List AliasRequest
  | module _ => []
  | product _ as => as

structure Package where
  /-- The identity in the form in which identities are compared. -/
  identity : String := ""
  /-- The identity as its author wrote it. -/
  display : String := ""
  location : String := ""
  tools : Version := .current
  isRoot : Bool := false
  modules : List ModuleId := []
  products : List ProductId := []
deriving DecidableEq, Repr, Inhabited

structure Module where
  name : String := ""
  owner : PackageId := 0
  kind : ModuleKind := .library
  sources : SourceSet := {}
  dependencies : List Dependency := []
deriving DecidableEq, Repr, Inhabited

structure Product where
  name : String := ""
  owner : PackageId := 0
  kind : ProductKind := .automaticLibrary
  modules : List ModuleId := []
deriving DecidableEq, Repr, Inhabited

structure Graph where
  packages : List Package := []
  modules : List Module := []
  products : List Product := []
deriving DecidableEq, Repr, Inhabited

namespace Graph

def package (g : Graph) (p : PackageId) : Except Fault Package :=
  match g.packages[p]? with
  | some x => .ok x
  | none => .error .packageOutOfRange

def module (g : Graph) (m : ModuleId) : Except Fault Module :=
  match g.modules[m]? with
  | some x => .ok x
  | none => .error .moduleOutOfRange

def product (g : Graph) (p : ProductId) : Except Fault Product :=
  match g.products[p]? with
  | some x => .ok x
  | none => .error .productOutOfRange

def packageAt (g : Graph) (p : PackageId) : Package := g.packages.getD p {}

def moduleAt (g : Graph) (m : ModuleId) : Module := g.modules.getD m {}

def productAt (g : Graph) (p : ProductId) : Product := g.products.getD p {}

def moduleIds (g : Graph) : List ModuleId := List.range g.modules.length

def productIds (g : Graph) : List ProductId := List.range g.products.length

def ownerOf (g : Graph) (m : ModuleId) : Package := g.packageAt (g.moduleAt m).owner

def vendorOf (g : Graph) (p : ProductId) : Package := g.packageAt (g.productAt p).owner

/-! ### Roots -/

def rootPackages (g : Graph) : List PackageId :=
  (List.range g.packages.length).filter fun p => (g.packageAt p).isRoot

def rootModules (g : Graph) : List ModuleId :=
  (g.packages.filter (·.isRoot)).flatMap (·.modules)

def rootProducts (g : Graph) : List ProductId :=
  (g.packages.filter (·.isRoot)).flatMap (·.products)

/-! ### Look-ups by name -/

def findPackage? (g : Graph) (identity : String) : Option PackageId :=
  g.packages.findIdx? (·.identity = Name.normalize identity)

/-- The first of the given modules that has the given name. -/
def firstModule (g : Graph) (name : String) : List ModuleId → Except Fault (Option ModuleId)
  | [] => .ok none
  | m :: ms => do
    if (← g.module m).name = name then return some m
    g.firstModule name ms

def firstProduct (g : Graph) (name : String) : List ProductId → Except Fault (Option ProductId)
  | [] => .ok none
  | p :: ps => do
    if (← g.product p).name = name then return some p
    g.firstProduct name ps

def findModuleIn (g : Graph) (p : PackageId) (name : String) :
    Except Fault (Option ModuleId) := do
  g.firstModule name (← g.package p).modules

def findProductIn (g : Graph) (p : PackageId) (name : String) :
    Except Fault (Option ProductId) := do
  g.firstProduct name (← g.package p).products

/-- A module by name alone: the modules of root packages come first. -/
def findModule (g : Graph) (name : String) : Except Fault (Option ModuleId) := do
  match ← g.firstModule name g.rootModules with
  | some m => return some m
  | none => return g.modules.findIdx? (·.name = name)

/-! ### Qualified names -/

/-- A module's name behind the identity of its package. -/
def qualifiedModule (g : Graph) (m : ModuleId) : Except Fault String := do
  let x ← g.module m
  return (← g.package x.owner).identity ++ ":" ++ x.name

def qualifiedProduct (g : Graph) (p : ProductId) : Except Fault String := do
  let x ← g.product p
  return (← g.package x.owner).identity ++ ":" ++ x.name

/-! ### Dependencies -/

/-- The modules that a dependency leads to. -/
def targets (g : Graph) : Dependency → List ModuleId
  | .module m => [m]
  | .product p _ => (g.productAt p).modules

/-- The fault of following a dependency that leads nowhere. -/
def danglingFault? (g : Graph) : Dependency → Option Fault
  | .module m => if m < g.modules.length then none else some .moduleOutOfRange
  | .product p _ => if p < g.products.length then none else some .productOutOfRange

/-- Every reference is in range. -/
def IsClosed (g : Graph) : Prop :=
  (∀ p ∈ g.packages, (∀ m ∈ p.modules, m < g.modules.length) ∧
    ∀ q ∈ p.products, q < g.products.length) ∧
  (∀ m ∈ g.modules, m.owner < g.packages.length ∧
    ∀ d ∈ m.dependencies, g.danglingFault? d = none) ∧
  ∀ q ∈ g.products, q.owner < g.packages.length ∧ ∀ m ∈ q.modules, m < g.modules.length

instance (g : Graph) : Decidable g.IsClosed := by unfold IsClosed; infer_instance

end Graph

end BuildPlanner
