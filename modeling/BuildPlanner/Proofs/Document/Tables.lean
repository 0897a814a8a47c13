import BuildPlanner.Proofs.Document.Assembled
import BuildPlanner.Proofs.Document.Writing
import BuildPlanner.Proofs.Graph.Lookup

/-!
What the graph of a document has in its tables.

Each package of the document is in the graph at its own position, where its identity finds it, and
each module and product is found in its package by its name. What is found has the data of the
entry, and it refers to what the names in the entry find. A graph lists what a package owns, so
there is nothing in the tables but what an entry declares.
-/

namespace BuildPlanner.Document

open BuildPlanner.Graph

/-! ### Definitions -/

/-- The package whose product a dependency names, as the look-up of its identity finds it. -/
def DependencyEntry.IsFrom (g : Graph) (owner : PackageId) (e : DependencyEntry)
    (vendor : PackageId) : Prop :=
  if e.package = "" then vendor = owner else g.findPackage? e.package = some vendor

/-- A dependency leads to what its entry, in a module of `owner`, names. -/
inductive DependencyEntry.IsHeld (g : Graph) (owner : PackageId) (e : DependencyEntry) :
    Dependency → Prop
  | module {m : ModuleId} (hm : e.module ≠ "")
    (hfound : g.findModuleIn owner e.module = .ok (some m)) : IsHeld g owner e (.module m)
  | product {vendor : PackageId} {q : ProductId} (hm : e.module = "")
    (hfrom : e.IsFrom g owner vendor)
    (hfound : g.findProductIn vendor e.product = .ok (some q)) :
    IsHeld g owner e (.product q (e.aliases.entries.map fun a => ⟨a.1, a.2⟩))

/-- A module of `owner` is found by the name of an entry, and has its data. -/
structure ModuleEntry.IsHeld (g : Graph) (owner : PackageId) (m : ModuleEntry) (k : ModuleId) :
    Prop where
  found : g.findModuleIn owner m.name = .ok (some k)
  held : ∃ ds, List.Forall₂ (·.IsHeld g owner) m.dependencies ds ∧ g.module k = .ok {
    name := m.name, owner, kind := m.kind, sources := m.sourceSet, dependencies := ds }

/-- A product of `owner` is found by the name of an entry, and has its data. -/
structure ProductEntry.IsHeld (g : Graph) (owner : PackageId) (q : ProductEntry) (k : ProductId) :
    Prop where
  found : g.findProductIn owner q.name = .ok (some k)
  held : ∃ ms, List.Forall₂ (fun name m => g.findModuleIn owner name = .ok (some m)) q.modules ms ∧
    g.product k = .ok { name := q.name, owner, kind := q.kind, modules := ms }

/-- The package at `i` is found by the identity of an entry, and has its data. -/
structure PackageEntry.IsHeld (g : Graph) (p : PackageEntry) (i : PackageId) : Prop where
  found : g.findPackage? p.identity = some i
  held : ∃ ms qs, List.Forall₂ (·.IsHeld g i) p.modules ms ∧
    List.Forall₂ (·.IsHeld g i) p.products qs ∧ g.package i = .ok {
      identity := Name.normalize p.identity, display := p.identity, location := p.location,
      tools := p.tools, isRoot := p.isRoot, modules := ms, products := qs }

/-- A graph has what the entries of a document declare, and nothing else. -/
structure IsHeld (g : Graph) (d : Document) : Prop where
  packages (i : PackageId) (p : PackageEntry) (hp : d.packages[i]? = some p) : p.IsHeld g i
  packages_only : g.packages.length = d.packages.length
  modules_only (k : ModuleId) (hk : k < g.modules.length) : ∃ (i : PackageId) (p : PackageEntry),
    d.packages[i]? = some p ∧ ∃ m ∈ p.modules, m.IsHeld g i k
  products_only (k : ProductId) (hk : k < g.products.length) : ∃ (i : PackageId) (p : PackageEntry),
    d.packages[i]? = some p ∧ ∃ q ∈ p.products, q.IsHeld g i k

variable {d : Document} {p : PackageEntry} {i : PackageId}

/-! ### Look-ups -/

lemma assembled_graph (hd : d.WellFormed) : d.graph.Assembled := by
  obtain ⟨g, hg⟩ := (judges_toGraph d).exists_ok_iff.2 hd
  obtain ⟨-, rfl⟩ := (judges_toGraph d).of_ok hg
  exact assembled_of_toGraph hg

lemma length_packages_graph (d : Document) : d.graph.packages.length = d.packages.length :=
  length_packages_declared d.packages

lemma lt_of_getElem? (hp : d.packages[i]? = some p) : i < d.graph.packages.length := by
  rw [length_packages_graph]
  exact (List.getElem?_eq_some_iff.1 hp).1

lemma findPackage?_graph (hd : d.WellFormed) (hp : d.packages[i]? = some p) {identity : String}
    (hidentity : Name.normalize p.identity = Name.normalize identity) :
    d.graph.findPackage? identity = some i := by
  refine (assembled_graph hd).isIdentified.findPackage?_eq (lt_of_getElem? hp) ?_
  rw [Graph.package_eq_ok (package_graph hp)]
  exact hidentity

lemma findModuleIn_graph (hd : d.WellFormed) (hp : d.packages[i]? = some p) {j : Nat}
    {m : ModuleEntry} (hj : p.modules[j]? = some m) :
    d.graph.findModuleIn i m.name = .ok (some (moduleStart d.packages i + j)) :=
  (assembled_graph hd).isFiled.findModuleIn_own (module_graph hp hj) (lt_of_getElem? hp)

lemma findProductIn_graph (hd : d.WellFormed) (hp : d.packages[i]? = some p) {j : Nat}
    {q : ProductEntry} (hj : p.products[j]? = some q) :
    d.graph.findProductIn i q.name = .ok (some (productStart d.packages i + j)) :=
  (assembled_graph hd).isFiled.findProductIn_own (product_graph hp hj) (lt_of_getElem? hp)

/-! ### Entries -/

lemma isFrom_vendor (hd : d.WellFormed) {e : DependencyEntry} {x : PackageEntry}
    (hx : e.Vendor d.packages p x) (hvendor : d.packages[e.vendor d.packages i]? = some x) :
    e.IsFrom d.graph i (e.vendor d.packages i) := by
  unfold DependencyEntry.Vendor at hx
  unfold DependencyEntry.IsFrom
  split at hx
  · next hown => rw [if_pos hown, DependencyEntry.vendor, if_pos hown]
  · next hown =>
    rw [if_neg hown]
    exact findPackage?_graph hd hvendor hx.2

lemma isHeld_target (hd : d.WellFormed) (hp : d.packages[i]? = some p) {e : DependencyEntry}
    (he : e.Names d.packages p) : e.IsHeld d.graph i (e.target d.packages i) := by
  by_cases hm : e.module = ""
  · -- A product, of the package named or of the one at hand.
    obtain ⟨x, j, q, hx, hvendor, hj, hname, htarget⟩ := he.exists_product hd.distinct hp hm
    rw [htarget]
    exact .product hm (isFrom_vendor hd hx hvendor) (hname ▸ findProductIn_graph hd hvendor hj)
  · -- A module of the package at hand.
    obtain ⟨j, m, hj, hname, htarget⟩ := he.exists_module hp hm
    rw [htarget]
    exact .module hm (hname ▸ findModuleIn_graph hd hp hj)

lemma isHeld_module (hd : d.WellFormed) (hp : d.packages[i]? = some p) {j : Nat} {m : ModuleEntry}
    (hj : p.modules[j]? = some m) : m.IsHeld d.graph i (moduleStart d.packages i + j) := by
  refine ⟨findModuleIn_graph hd hp hj, targets d.packages (m, i), ?_, module_graph hp hj⟩
  rw [targets, List.forall₂_map_right_iff, List.forall₂_same]
  intro e he
  exact isHeld_target hd hp
    (hd.resolved p (List.mem_of_getElem? hp) m (List.mem_of_getElem? hj) e he)

lemma isHeld_product (hd : d.WellFormed) (hp : d.packages[i]? = some p) {j : Nat}
    {q : ProductEntry} (hj : p.products[j]? = some q) :
    q.IsHeld d.graph i (productStart d.packages i + j) := by
  refine ⟨findProductIn_graph hd hp hj, _, ?_, product_graph hp hj⟩
  rw [List.forall₂_map_right_iff, List.forall₂_same]
  intro name hname
  have hcontents := (hd.consistent p (List.mem_of_getElem? hp)).contents q
    (List.mem_of_getElem? hj) name hname
  obtain ⟨m, hm, rfl⟩ := exists_findIdx hcontents
  exact findModuleIn_graph hd hp hm

lemma isHeld_package (hd : d.WellFormed) (hp : d.packages[i]? = some p) : p.IsHeld d.graph i :=
  ⟨findPackage?_graph hd hp rfl, _, _, forall₂_range' fun _ _ hj => isHeld_module hd hp hj,
    forall₂_range' fun _ _ hj => isHeld_product hd hp hj, package_graph hp⟩

/-! ### Tables -/

lemma exists_of_mem_range' {α : Type} {l : List α} {a k : Nat}
    (h : k ∈ List.range' a l.length) : ∃ j x, l[j]? = some x ∧ k = a + j := by
  obtain ⟨j, hj, rfl⟩ := List.mem_range'.1 h
  exact ⟨j, l[j], List.getElem?_eq_getElem hj, by rw [Nat.one_mul]⟩

lemma exists_module_held (hd : d.WellFormed) (hp : d.packages[i]? = some p) {k : ModuleId}
    (hk : k ∈ (d.graph.packageAt i).modules) : ∃ m ∈ p.modules, m.IsHeld d.graph i k := by
  rw [Graph.package_eq_ok (package_graph hp)] at hk
  obtain ⟨j, m, hj, rfl⟩ := exists_of_mem_range' hk
  exact ⟨m, List.mem_of_getElem? hj, isHeld_module hd hp hj⟩

lemma exists_product_held (hd : d.WellFormed) (hp : d.packages[i]? = some p) {k : ProductId}
    (hk : k ∈ (d.graph.packageAt i).products) : ∃ q ∈ p.products, q.IsHeld d.graph i k := by
  rw [Graph.package_eq_ok (package_graph hp)] at hk
  obtain ⟨j, q, hj, rfl⟩ := exists_of_mem_range' hk
  exact ⟨q, List.mem_of_getElem? hj, isHeld_product hd hp hj⟩

/-- **Every entry of a document is found in its graph, with its own data.** The graph has nothing
else, as what it has is listed by the package that owns it. -/
theorem isHeld_of_toGraph {g : Graph} (h : d.toGraph = .ok g) : d.IsHeld g := by
  obtain ⟨hd, rfl⟩ := (judges_toGraph d).of_ok h
  have hfiled := (assembled_graph hd).isFiled
  obtain ⟨-, hmodules, hproducts⟩ := (assembled_graph hd).isClosed
  have hentry {i : PackageId} (hi : i < d.graph.packages.length) :
      ∃ p, d.packages[i]? = some p := by
    rw [length_packages_graph] at hi
    exact ⟨_, List.getElem?_eq_getElem hi⟩
  refine ⟨fun i p hp => isHeld_package hd hp, length_packages_graph d, fun k hk => ?_,
    fun k hk => ?_⟩
  · obtain ⟨p, hp⟩ := hentry (hmodules _ (moduleAt_mem hk)).1
    exact ⟨_, p, hp, exists_module_held hd hp ((hfiled.modules.mem_iff _ k).2 ⟨hk, rfl⟩)⟩
  · obtain ⟨p, hp⟩ := hentry (hproducts _ (productAt_mem hk)).1
    exact ⟨_, p, hp, exists_product_held hd hp ((hfiled.products.mem_iff _ k).2 ⟨hk, rfl⟩)⟩

end BuildPlanner.Document
