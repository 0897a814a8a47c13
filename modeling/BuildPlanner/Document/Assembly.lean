import BuildPlanner.Document.Basic
import BuildPlanner.Graph.Builder

/-!
Graphs from documents, and documents from graphs.

All packages, modules and products are declared before any dependency is added, so a dependency
may refer forwards.
-/

namespace BuildPlanner.Document

/-- Why a document describes no graph. Packages are named as they are written. -/
inductive Refusal
  | emptyIdentity
  | duplicatePackage (identity : String)
  | duplicateModule (module package : String)
  | duplicateProduct (product package : String)
  | unknownProductModule (product module package : String)
  | unclearDependency (module : String)
  | qualifiedDependency (dependency module : String)
  | unknownModule (module dependency : String)
  | unknownPackage (module package : String)
  | unknownProduct (module product package : String)
  | fault (f : Fault)
deriving DecidableEq, Repr

def Refusal.message : Refusal → String
  | emptyIdentity => "package with an empty identity"
  | duplicatePackage p => "duplicate package '" ++ p ++ "'"
  | duplicateModule m p => "duplicate module '" ++ m ++ "' in package '" ++ p ++ "'"
  | duplicateProduct q p => "duplicate product '" ++ q ++ "' in package '" ++ p ++ "'"
  | unknownProductModule q m p =>
    "product '" ++ q ++ "' refers to unknown module '" ++ m ++ "' in package '" ++ p ++ "'"
  | unclearDependency m =>
    "dependency of module '" ++ m ++ "' must name exactly one of 'module' and 'product'"
  | qualifiedDependency d m =>
    "module dependency '" ++ d ++ "' of '" ++ m ++ "' cannot name a package or aliases"
  | unknownModule m d => "module '" ++ m ++ "' depends on unknown module '" ++ d ++ "'"
  | unknownPackage m p => "module '" ++ m ++ "' depends on unknown package '" ++ p ++ "'"
  | unknownProduct m q p =>
    "module '" ++ m ++ "' depends on unknown product '" ++ q ++ "' in package '" ++ p ++ "'"
  | fault f => f.message

/-- A step of graph assembly, whose faults are refusals. -/
def step {α : Type} (x : Except Fault α) : Except Refusal α := x.mapError .fault

/-! ### Declarations -/

/-- A module without sources is taken to have Swift sources. -/
def ModuleEntry.sourceSet (m : ModuleEntry) : SourceSet :=
  if m.sources.isEmpty then .ofList [.swift] else .ofList m.sources

def declareModule (owner : PackageId) (package : String) (g : Graph) (m : ModuleEntry) :
    Except Refusal Graph := do
  if (← step (g.findModuleIn owner m.name)).isSome then throw (.duplicateModule m.name package)
  step (g.addModule owner m.name m.kind m.sourceSet)

/-- The module of a package that a product names. -/
def productModule (owner : PackageId) (package : String) (g : Graph) (product module : String) :
    Except Refusal ModuleId := do
  match ← step (g.findModuleIn owner module) with
  | some m => return m
  | none => throw (.unknownProductModule product module package)

def declareProduct (owner : PackageId) (package : String) (g : Graph) (q : ProductEntry) :
    Except Refusal Graph := do
  if (← step (g.findProductIn owner q.name)).isSome then throw (.duplicateProduct q.name package)
  let modules ← q.modules.mapM (productModule owner package g q.name)
  step (g.addProduct owner q.name q.kind modules)

def declarePackage (g : Graph) (p : PackageEntry) : Except Refusal Graph := do
  if p.identity = "" then throw .emptyIdentity
  if (g.findPackage? p.identity).isSome then throw (.duplicatePackage p.identity)
  let owner := g.packages.length
  let g ← step (g.addPackage p.identity p.location p.tools p.isRoot)
  let g ← p.modules.foldlM (declareModule owner p.identity) g
  p.products.foldlM (declareProduct owner p.identity) g

/-! ### Dependencies -/

/-- The package that a dependency on a product names; its own package if it names none. -/
def productPackage (owner : PackageId) (g : Graph) (module : String) (d : DependencyEntry) :
    Except Refusal PackageId :=
  if d.package = "" then .ok owner
  else
    match g.findPackage? d.package with
    | some p => .ok p
    | none => .error (.unknownPackage module d.package)

def moduleDependency (owner : PackageId) (g : Graph) (module : String) (d : DependencyEntry) :
    Except Refusal Dependency := do
  if d.package ≠ "" ∨ ¬ d.aliases.isEmpty then throw (.qualifiedDependency d.module module)
  match ← step (g.findModuleIn owner d.module) with
  | some target => return .module target
  | none => throw (.unknownModule module d.module)

def productDependency (owner : PackageId) (g : Graph) (module : String) (d : DependencyEntry) :
    Except Refusal Dependency := do
  let p ← productPackage owner g module d
  match ← step (g.findProductIn p d.product) with
  | some target => return .product target (d.aliases.entries.map fun a => ⟨a.1, a.2⟩)
  | none => throw (.unknownProduct module d.product (← step (g.package p)).display)

def resolveDependency (owner : PackageId) (g : Graph) (module : String) (d : DependencyEntry) :
    Except Refusal Dependency :=
  if (d.module = "") = (d.product = "") then .error (.unclearDependency module)
  else if d.module ≠ "" then moduleDependency owner g module d
  else productDependency owner g module d

def connectModule (owner : PackageId) (g : Graph) (m : ModuleEntry) : Except Refusal Graph := do
  match ← step (g.findModuleIn owner m.name) with
  | none => throw (.fault .moduleOutOfRange)
  | some consumer =>
    m.dependencies.foldlM (fun g d => do
      step (g.addDependency consumer (← resolveDependency owner g m.name d))) g

def connectPackage (g : Graph) (p : PackageEntry × PackageId) : Except Refusal Graph :=
  p.1.modules.foldlM (connectModule p.2) g

def toGraph (d : Document) : Except Refusal Graph := do
  let g ← d.packages.foldlM declarePackage {}
  d.packages.zipIdx.foldlM connectPackage g

/-! ### Documents of graphs -/

def dependencyEntry (g : Graph) : Dependency → Except Fault DependencyEntry
  | .module m => do return { module := (← g.module m).name }
  | .product p aliases => do
    let x ← g.product p
    return {
      product := x.name
      package := (← g.package x.owner).display
      aliases := .ofList (aliases.map fun a => (a.name, a.replacement)) }

def moduleEntry (g : Graph) (m : ModuleId) : Except Fault ModuleEntry := do
  let x ← g.module m
  return {
    name := x.name
    kind := x.kind
    sources := x.sources.toList
    dependencies := ← x.dependencies.mapM (dependencyEntry g) }

def productEntry (g : Graph) (p : ProductId) : Except Fault ProductEntry := do
  let x ← g.product p
  return {
    name := x.name
    kind := x.kind
    modules := ← x.modules.mapM fun m => return (← g.module m).name }

def packageEntry (g : Graph) (p : Package) : Except Fault PackageEntry := do
  return {
    identity := p.display
    location := p.location
    tools := p.tools
    isRoot := p.isRoot
    modules := ← p.modules.mapM (moduleEntry g)
    products := ← p.products.mapM (productEntry g) }

def ofGraph (g : Graph) : Except Fault Document := do
  return { packages := ← g.packages.mapM (packageEntry g) }

end BuildPlanner.Document
