import BuildPlanner.Document.Data
import BuildPlanner.Graph.Kind
import BuildPlanner.SortedMap
import BuildPlanner.Version

/-!
Graph documents: packages with their modules and products, referring to each other by name.

`decode?` reads a document from keyed data and `encode` writes it, leaving out what has its
default. Reading decides shape only; whether the names fit together is for `Document.toGraph`.
-/

namespace BuildPlanner

namespace Document

structure DependencyEntry where
  module : String := ""
  product : String := ""
  package : String := ""
  aliases : SortedMap String String := .empty
deriving DecidableEq

structure ModuleEntry where
  name : String
  kind : ModuleKind := .library
  sources : List SourceKind := []
  dependencies : List DependencyEntry := []
deriving DecidableEq

structure ProductEntry where
  name : String
  kind : ProductKind := .automaticLibrary
  modules : List String
deriving DecidableEq

structure PackageEntry where
  identity : String
  location : String := ""
  tools : Version := .current
  isRoot : Bool := false
  modules : List ModuleEntry := []
  products : List ProductEntry := []
deriving DecidableEq

end Document

structure Document where
  packages : List Document.PackageEntry
deriving DecidableEq

namespace Document

open Data

/-! ### Reading -/

def DependencyEntry.decode? (t : Data) : Option DependencyEntry := do
  let fs ← t.fields? ["module", "product", "package", "aliases"]
  return {
    module := ← optional "module" "" text? fs
    product := ← optional "product" "" text? fs
    package := ← optional "package" "" text? fs
    aliases := .ofList (← optional "aliases" [] (map? text?) fs) }

def ModuleEntry.decode? (t : Data) : Option ModuleEntry := do
  let fs ← t.fields? ["name", "kind", "sources", "dependencies"]
  return {
    name := ← required "name" text? fs
    kind := ← optional "kind" .library (fun v => v.text?.bind ModuleKind.ofLabel?) fs
    sources := ← optional "sources" [] (list? fun v => v.text?.bind SourceKind.ofLabel?) fs
    dependencies := ← optional "dependencies" [] (list? DependencyEntry.decode?) fs }

def ProductEntry.decode? (t : Data) : Option ProductEntry := do
  let fs ← t.fields? ["name", "kind", "modules"]
  return {
    name := ← required "name" text? fs
    kind := ← optional "kind" .automaticLibrary (fun v => v.text?.bind ProductKind.ofLabel?) fs
    modules := ← required "modules" (list? text?) fs }

def PackageEntry.decode? (t : Data) : Option PackageEntry := do
  let fs ← t.fields? ["identity", "location", "tools-version", "root", "modules", "products"]
  return {
    identity := ← required "identity" text? fs
    location := ← optional "location" "" text? fs
    tools := ← optional "tools-version" .current (fun v => v.text?.bind Version.parse?) fs
    isRoot := ← optional "root" false flag? fs
    modules := ← optional "modules" [] (list? ModuleEntry.decode?) fs
    products := ← optional "products" [] (list? ProductEntry.decode?) fs }

def decode? (t : Data) : Option Document := do
  let fs ← t.fields? ["packages"]
  return { packages := ← required "packages" (list? PackageEntry.decode?) fs }

/-! ### Writing -/

def DependencyEntry.encode (d : DependencyEntry) : Data :=
  .record (
    Data.fieldIf (d.module ≠ "") "module" (.text d.module) ++
    Data.fieldIf (d.product ≠ "") "product" (.text d.product) ++
    Data.fieldIf (d.package ≠ "") "package" (.text d.package) ++
    Data.fieldIf (!d.aliases.isEmpty) "aliases"
      (.record (d.aliases.entries.map fun a => (a.1, .text a.2))))

def ModuleEntry.encode (m : ModuleEntry) : Data :=
  .record (
    [("name", .text m.name)] ++
    Data.fieldIf (m.kind ≠ .library) "kind" (.text m.kind.label) ++
    Data.fieldIf (!m.sources.isEmpty) "sources" (.list (m.sources.map fun k => .text k.label)) ++
    Data.fieldIf (!m.dependencies.isEmpty) "dependencies"
      (.list (m.dependencies.map DependencyEntry.encode)))

def ProductEntry.encode (p : ProductEntry) : Data :=
  .record (
    [("name", .text p.name)] ++
    Data.fieldIf (p.kind ≠ .automaticLibrary) "kind" (.text p.kind.label) ++
    [("modules", .list (p.modules.map .text))])

def PackageEntry.encode (p : PackageEntry) : Data :=
  .record (
    [("identity", .text p.identity)] ++
    Data.fieldIf (p.location ≠ "") "location" (.text p.location) ++
    Data.fieldIf (!p.tools.same .current) "tools-version" (.text p.tools.text) ++
    Data.fieldIf p.isRoot "root" (.flag p.isRoot) ++
    Data.fieldIf (!p.modules.isEmpty) "modules" (.list (p.modules.map ModuleEntry.encode)) ++
    Data.fieldIf (!p.products.isEmpty) "products" (.list (p.products.map ProductEntry.encode)))

def encode (d : Document) : Data :=
  .record [("packages", .list (d.packages.map PackageEntry.encode))]

end Document

end BuildPlanner
