import BuildPlanner.Proofs.Graph.Leads
import Mathlib.Data.Option.Basic
import Mathlib.Logic.Equiv.Defs

/-!
Graphs that differ in the order in which their parts were declared.

A reordering gives each package, module and product another position. What it is at its old
position it is at its new one, except that it refers to others by their new positions, and that
lists of such references may have changed their order too: those of the modules and products of a
package, of the modules of a product, and of the dependencies of a module. The relations that the
references span are therefore the same up to renumbering.
-/

namespace BuildPlanner

open Relation (ReflTransGen TransGen)

/-! ### Renumbered rows -/

def Dependency.renumber (module : ModuleId → ModuleId) (product : ProductId → ProductId) :
    Dependency → Dependency
  | .module m => .module (module m)
  | .product p aliases => .product (product p) aliases

/-- A package with other positions of its modules and products. -/
structure Package.Renumbered (module : ModuleId → ModuleId) (product : ProductId → ProductId)
    (x y : Package) : Prop where
  identity : y.identity = x.identity
  display : y.display = x.display
  location : y.location = x.location
  tools : y.tools = x.tools
  isRoot : y.isRoot = x.isRoot
  modules : y.modules.Perm (x.modules.map module)
  products : y.products.Perm (x.products.map product)

/-- A module with other positions of its package and of what it depends on. -/
structure Module.Renumbered (package : PackageId → PackageId) (module : ModuleId → ModuleId)
    (product : ProductId → ProductId) (x y : Module) : Prop where
  name : y.name = x.name
  owner : y.owner = package x.owner
  kind : y.kind = x.kind
  sources : y.sources = x.sources
  dependencies : y.dependencies.Perm (x.dependencies.map (·.renumber module product))

/-- A product with other positions of its package and its modules. -/
structure Product.Renumbered (package : PackageId → PackageId) (module : ModuleId → ModuleId)
    (x y : Product) : Prop where
  name : y.name = x.name
  owner : y.owner = package x.owner
  kind : y.kind = x.kind
  modules : y.modules.Perm (x.modules.map module)

/-- The positions in `g'` of what is declared in `g`, in whatever order. -/
structure Reordering (g g' : Graph) where
  package : Equiv.Perm PackageId
  module : Equiv.Perm ModuleId
  product : Equiv.Perm ProductId
  packages : ∀ p, Option.Rel (Package.Renumbered module product) g.packages[p]?
    g'.packages[package p]?
  modules : ∀ m, Option.Rel (Module.Renumbered package module product) g.modules[m]?
    g'.modules[module m]?
  products : ∀ p, Option.Rel (Product.Renumbered package module) g.products[p]?
    g'.products[product p]?

/-! ### Lists and chains up to renumbering -/

section Renumbering

variable {α β : Type} {f : α → β} {l : List α} {l' : List β}

lemma forall_mem_of_perm_map (h : l'.Perm (l.map f)) {P : β → Prop} :
    (∀ b ∈ l', P b) ↔ ∀ a ∈ l, P (f a) := by
  simp [h.mem_iff]

lemma exists_mem_of_perm_map (h : l'.Perm (l.map f)) {P : β → Prop} :
    (∃ b ∈ l', P b) ↔ ∃ a ∈ l, P (f a) := by
  simp [h.mem_iff]

lemma mem_of_perm_map (h : l'.Perm (l.map f)) (hf : f.Injective) {a : α} :
    f a ∈ l' ↔ a ∈ l := by
  simp [h.mem_iff, hf.eq_iff]

variable {R : α → β → Prop} {i j : Nat}

lemma lt_length_iff_of_rel (h : Option.Rel R l[i]? l'[j]?) : j < l'.length ↔ i < l.length := by
  have hnone : l[i]? = none ↔ l'[j]? = none := by
    generalize l[i]? = x at h
    generalize l'[j]? = y at h
    cases h <;> simp
  simpa using hnone.symm.not

lemma rel_getD (h : Option.Rel R l[i]? l'[j]?) (hi : i < l.length) (a : α) (b : β) :
    R (l.getD i a) (l'.getD j b) := by
  have hj : j < l'.length := (lt_length_iff_of_rel h).2 hi
  rw [List.getElem?_eq_getElem hi, List.getElem?_eq_getElem hj] at h
  rw [List.getD_eq_getElem _ _ hi, List.getD_eq_getElem _ _ hj]
  exact Option.rel_some_some.1 h

/-- A bijection that respects steps both ways respects chains of steps. -/
lemma reflTransGen_equiv (e : α ≃ β) {r : α → α → Prop} {s : β → β → Prop}
    (h : ∀ a b, s (e a) (e b) ↔ r a b) {a b : α} :
    ReflTransGen s (e a) (e b) ↔ ReflTransGen r a b := by
  refine ⟨fun hs => ?_, fun hr => hr.lift e fun a b => (h a b).2⟩
  have hback := hs.lift e.symm fun x y hxy =>
    (h _ _).1 (by simpa only [Equiv.apply_symm_apply] using hxy)
  simpa only [Function.onFun, Equiv.symm_apply_apply] using hback

end Renumbering

namespace Reordering

variable {g g' : Graph}

/-- The dependency in `g'` that a dependency in `g` has become. -/
def dependency (σ : Reordering g g') (d : Dependency) : Dependency :=
  d.renumber σ.module σ.product

@[simp] lemma dependency_module (σ : Reordering g g') (m : ModuleId) :
    σ.dependency (.module m) = .module (σ.module m) := rfl

@[simp] lemma dependency_product (σ : Reordering g g') (p : ProductId) (rs : List AliasRequest) :
    σ.dependency (.product p rs) = .product (σ.product p) rs := rfl

@[simp] lemma aliases_dependency (σ : Reordering g g') (d : Dependency) :
    (σ.dependency d).aliases = d.aliases := by
  cases d <;> rfl

lemma dependency_injective (σ : Reordering g g') : σ.dependency.Injective := by
  rintro (m | ⟨p, rs⟩) (n | ⟨q, ss⟩) h <;> simp_all

/-! ### Rows -/

variable (σ : Reordering g g')

lemma package_lt {p : PackageId} : σ.package p < g'.packages.length ↔ p < g.packages.length :=
  lt_length_iff_of_rel (σ.packages p)

lemma module_lt {m : ModuleId} : σ.module m < g'.modules.length ↔ m < g.modules.length :=
  lt_length_iff_of_rel (σ.modules m)

lemma product_lt {p : ProductId} : σ.product p < g'.products.length ↔ p < g.products.length :=
  lt_length_iff_of_rel (σ.products p)

lemma packageAt {p : PackageId} (hp : p < g.packages.length) :
    Package.Renumbered σ.module σ.product (g.packageAt p) (g'.packageAt (σ.package p)) :=
  rel_getD (σ.packages p) hp _ _

lemma moduleAt {m : ModuleId} (hm : m < g.modules.length) :
    Module.Renumbered σ.package σ.module σ.product (g.moduleAt m) (g'.moduleAt (σ.module m)) :=
  rel_getD (σ.modules m) hm _ _

lemma productAt {p : ProductId} (hp : p < g.products.length) :
    Product.Renumbered σ.package σ.module (g.productAt p) (g'.productAt (σ.product p)) :=
  rel_getD (σ.products p) hp _ _

lemma moduleAt_blank {m : ModuleId} (hm : ¬ m < g.modules.length) :
    g.moduleAt m = {} ∧ g'.moduleAt (σ.module m) = {} :=
  ⟨Graph.moduleAt_of_length_le (not_lt.1 hm),
    Graph.moduleAt_of_length_le (not_lt.1 (σ.module_lt.not.2 hm))⟩

lemma productAt_blank {p : ProductId} (hp : ¬ p < g.products.length) :
    g.productAt p = {} ∧ g'.productAt (σ.product p) = {} :=
  ⟨Graph.productAt_of_length_le (not_lt.1 hp),
    Graph.productAt_of_length_le (not_lt.1 (σ.product_lt.not.2 hp))⟩

@[simp] lemma name_module (m : ModuleId) :
    (g'.moduleAt (σ.module m)).name = (g.moduleAt m).name := by
  by_cases hm : m < g.modules.length
  · exact (σ.moduleAt hm).name
  · rw [(σ.moduleAt_blank hm).1, (σ.moduleAt_blank hm).2]

@[simp] lemma kind_module (m : ModuleId) :
    (g'.moduleAt (σ.module m)).kind = (g.moduleAt m).kind := by
  by_cases hm : m < g.modules.length
  · exact (σ.moduleAt hm).kind
  · rw [(σ.moduleAt_blank hm).1, (σ.moduleAt_blank hm).2]

@[simp] lemma sources_module (m : ModuleId) :
    (g'.moduleAt (σ.module m)).sources = (g.moduleAt m).sources := by
  by_cases hm : m < g.modules.length
  · exact (σ.moduleAt hm).sources
  · rw [(σ.moduleAt_blank hm).1, (σ.moduleAt_blank hm).2]

lemma dependencies (m : ModuleId) : (g'.moduleAt (σ.module m)).dependencies.Perm
    ((g.moduleAt m).dependencies.map σ.dependency) := by
  by_cases hm : m < g.modules.length
  · exact (σ.moduleAt hm).dependencies
  · rw [(σ.moduleAt_blank hm).1, (σ.moduleAt_blank hm).2]
    exact .nil

@[simp] lemma name_product (p : ProductId) :
    (g'.productAt (σ.product p)).name = (g.productAt p).name := by
  by_cases hp : p < g.products.length
  · exact (σ.productAt hp).name
  · rw [(σ.productAt_blank hp).1, (σ.productAt_blank hp).2]

@[simp] lemma kind_product (p : ProductId) :
    (g'.productAt (σ.product p)).kind = (g.productAt p).kind := by
  by_cases hp : p < g.products.length
  · exact (σ.productAt hp).kind
  · rw [(σ.productAt_blank hp).1, (σ.productAt_blank hp).2]

lemma members (p : ProductId) : (g'.productAt (σ.product p)).modules.Perm
    ((g.productAt p).modules.map σ.module) := by
  by_cases hp : p < g.products.length
  · exact (σ.productAt hp).modules
  · rw [(σ.productAt_blank hp).1, (σ.productAt_blank hp).2]
    exact .nil

lemma ownerOf (hg : g.IsClosed) {m : ModuleId} (hm : m < g.modules.length) :
    Package.Renumbered σ.module σ.product (g.ownerOf m) (g'.ownerOf (σ.module m)) := by
  rw [Graph.ownerOf, Graph.ownerOf, (σ.moduleAt hm).owner]
  exact σ.packageAt (hg.2.1 _ (Graph.moduleAt_mem hm)).1

lemma vendorOf (hg : g.IsClosed) {p : ProductId} (hp : p < g.products.length) :
    Package.Renumbered σ.module σ.product (g.vendorOf p) (g'.vendorOf (σ.product p)) := by
  rw [Graph.vendorOf, Graph.vendorOf, (σ.productAt hp).owner]
  exact σ.packageAt (hg.2.2 _ (Graph.productAt_mem hp)).1

/-! ### References -/

@[simp] lemma mem_dependencies {m : ModuleId} {d : Dependency} :
    σ.dependency d ∈ (g'.moduleAt (σ.module m)).dependencies ↔
      d ∈ (g.moduleAt m).dependencies :=
  mem_of_perm_map (σ.dependencies m) σ.dependency_injective

lemma forall_dependencies {m : ModuleId} {P : Dependency → Prop} :
    (∀ d ∈ (g'.moduleAt (σ.module m)).dependencies, P d) ↔
      ∀ d ∈ (g.moduleAt m).dependencies, P (σ.dependency d) :=
  forall_mem_of_perm_map (σ.dependencies m)

lemma exists_dependencies {m : ModuleId} {P : Dependency → Prop} :
    (∃ d ∈ (g'.moduleAt (σ.module m)).dependencies, P d) ↔
      ∃ d ∈ (g.moduleAt m).dependencies, P (σ.dependency d) :=
  exists_mem_of_perm_map (σ.dependencies m)

@[simp] lemma mem_members {p : ProductId} {m : ModuleId} :
    σ.module m ∈ (g'.productAt (σ.product p)).modules ↔ m ∈ (g.productAt p).modules :=
  mem_of_perm_map (σ.members p) σ.module.injective

lemma exists_members {p : ProductId} {P : ModuleId → Prop} :
    (∃ m ∈ (g'.productAt (σ.product p)).modules, P m) ↔
      ∃ m ∈ (g.productAt p).modules, P (σ.module m) :=
  exists_mem_of_perm_map (σ.members p)

@[simp] lemma mem_targets {d : Dependency} {m : ModuleId} :
    σ.module m ∈ g'.targets (σ.dependency d) ↔ m ∈ g.targets d := by
  cases d with
  | module n => simp [Graph.targets]
  | product p rs => exact σ.mem_members

lemma mem_rootModules {m : ModuleId} : σ.module m ∈ g'.rootModules ↔ m ∈ g.rootModules := by
  rw [Graph.mem_rootModules_iff, Graph.mem_rootModules_iff, σ.package.surjective.exists]
  refine exists_congr fun p => ?_
  rw [σ.package_lt]
  refine and_congr_right fun hp => ?_
  rw [(σ.packageAt hp).isRoot, mem_of_perm_map (σ.packageAt hp).modules σ.module.injective]

lemma mem_rootProducts {p : ProductId} : σ.product p ∈ g'.rootProducts ↔ p ∈ g.rootProducts := by
  rw [Graph.mem_rootProducts_iff, Graph.mem_rootProducts_iff, σ.package.surjective.exists]
  refine exists_congr fun k => ?_
  rw [σ.package_lt]
  refine and_congr_right fun hk => ?_
  rw [(σ.packageAt hk).isRoot, mem_of_perm_map (σ.packageAt hk).products σ.product.injective]

/-! ### Reached modules -/

lemma leads {m n : ModuleId} : g'.Leads (σ.module m) (σ.module n) ↔ g.Leads m n := by
  rw [Graph.leads_iff, Graph.leads_iff, σ.exists_dependencies]
  simp

lemma reflTransGen_leads {m n : ModuleId} :
    ReflTransGen g'.Leads (σ.module m) (σ.module n) ↔ ReflTransGen g.Leads m n :=
  reflTransGen_equiv σ.module fun _ _ => σ.leads

lemma transGen_leads {m n : ModuleId} :
    TransGen g'.Leads (σ.module m) (σ.module n) ↔ TransGen g.Leads m n := by
  rw [TransGen.head'_iff, TransGen.head'_iff, σ.module.surjective.exists]
  simp only [σ.leads, σ.reflTransGen_leads]

lemma isReached {m : ModuleId} : g'.IsReached (σ.module m) ↔ g.IsReached m := by
  rw [Graph.IsReached, σ.module.surjective.exists]
  simp only [σ.mem_rootModules, σ.reflTransGen_leads]
  rfl

lemma isCyclic (σ : Reordering g g') : g'.IsCyclic ↔ g.IsCyclic := by
  rw [Graph.IsCyclic, σ.module.surjective.exists]
  simp only [σ.isReached, σ.transGen_leads]
  rfl

end Reordering

end BuildPlanner
