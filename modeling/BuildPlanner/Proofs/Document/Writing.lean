import BuildPlanner.Proofs.Document.Acceptance
import BuildPlanner.Proofs.Document.Encoding

/-!
The document of a graph that a document describes.

It is the document that was read, with every default stated that depends on names or sources: a
dependency on a product names the package of the product as that package writes its own identity,
and the sources of a module are listed without repetition (`Document.canonical`).
-/

namespace BuildPlanner.Document

variable {α β : Type} {ps : List PackageEntry} {p : PackageEntry} {i : PackageId}

/-! ### Tables -/

lemma moduleRows_eq_some {m : ModuleEntry} {j : Nat} (hp : ps[i]? = some p)
    (hj : p.modules[j]? = some m) : (moduleRows ps)[moduleStart ps i + j]? = some (m, i) := by
  induction ps using List.reverseRecOn with
  | nil => cases hp
  | append_singleton ps q ih =>
    rw [moduleRows_append_singleton]
    rcases Nat.lt_or_ge i ps.length with hlt | hge
    · rw [List.getElem?_append_left hlt] at hp
      have hold := ih hp
      rw [moduleStart_append_singleton q hlt.le, List.getElem?_append_left]
      · exact hold
      · exact (List.getElem?_eq_some_iff.1 hold).1
    · have hi := (List.getElem?_eq_some_iff.1 hp).1
      rw [List.length_append, List.length_singleton] at hi
      obtain rfl : i = ps.length := Nat.le_antisymm (Nat.le_of_lt_succ hi) hge
      obtain rfl : q = p := by simpa using hp
      rw [moduleStart_append_singleton q le_rfl, ← length_moduleRows,
        List.getElem?_append_right (Nat.le_add_right ..), Nat.add_sub_cancel_left,
        List.getElem?_map, hj]
      rfl

lemma packages_declared (ps : List PackageEntry) :
    (declared ps).packages =
      ps.zipIdx.map fun r => r.1.row (moduleStart ps r.2) (productStart ps r.2) := by
  refine List.ext_getElem? fun i => ?_
  rw [List.getElem?_map, List.getElem?_zipIdx]
  cases h : ps[i]? with
  | none =>
    rw [List.getElem?_eq_none_iff, ← length_packages_declared] at h
    simpa using h
  | some p => simpa using (placed_declared h).package

variable {d : Document}

lemma package_graph (hp : d.packages[i]? = some p) :
    d.graph.package i =
      .ok (p.row (moduleStart d.packages i) (productStart d.packages i)) :=
  (placed_declared hp).package_eq_ok

lemma module_graph {m : ModuleEntry} {j : Nat} (hp : d.packages[i]? = some p)
    (hj : p.modules[j]? = some m) :
    d.graph.module (moduleStart d.packages i + j) =
      .ok { m.row i with dependencies := targets d.packages (m, i) } := by
  have hrow := moduleRows_eq_some hp hj
  have hmodule : (declared d.packages).module (moduleStart d.packages i + j) = .ok (m.row i) := by
    rw [Graph.module, (placed_declared hp).modules j m hj]
  rw [graph, module_connect, hmodule, List.getD_eq_getElem?_getD, List.getElem?_map, hrow]
  rfl

lemma product_graph {q : ProductEntry} {j : Nat} (hp : d.packages[i]? = some p)
    (hj : p.products[j]? = some q) :
    d.graph.product (productStart d.packages i + j) =
      .ok (q.row i (moduleStart d.packages i) p.modules) := by
  have hproduct := (placed_declared hp).products j q hj
  rw [Graph.product, graph, connect, hproduct]

lemma exists_findIdx {α : Type} {l : List α} {name : α → String} {n : String}
    (h : ∃ x ∈ l, name x = n) : ∃ x, l[l.findIdx (name · = n)]? = some x ∧ name x = n := by
  obtain ⟨x, hx, hn⟩ := h
  have hlt : l.findIdx (name · = n) < l.length :=
    List.findIdx_lt_length_of_exists ⟨x, hx, by simpa using hn⟩
  have hfound := List.findIdx_getElem (w := hlt)
  exact ⟨_, List.getElem?_eq_getElem hlt, by simpa using hfound⟩

/-! ### Entries -/

/-- The identity of the package whose product a dependency of a module of `p` names, as that
package writes it. -/
def DependencyEntry.vendorIdentity (ps : List PackageEntry) (p : PackageEntry)
    (e : DependencyEntry) : String :=
  if e.package = "" then p.identity
  else
    ((ps.find? fun x => Name.normalize x.identity = Name.normalize e.package).map
      (·.identity)).getD ""

/-- A dependency on a product names its package. -/
def DependencyEntry.canonical (ps : List PackageEntry) (p : PackageEntry) (e : DependencyEntry) :
    DependencyEntry :=
  if e.module ≠ "" then e else { e with package := e.vendorIdentity ps p }

/-- The sources are listed without repetition. -/
def ModuleEntry.canonical (ps : List PackageEntry) (p : PackageEntry) (m : ModuleEntry) :
    ModuleEntry :=
  { m with
    sources := m.sourceSet.toList
    dependencies := m.dependencies.map (·.canonical ps p) }

def PackageEntry.canonical (ps : List PackageEntry) (p : PackageEntry) : PackageEntry :=
  { p with modules := p.modules.map (·.canonical ps p) }

def canonical (d : Document) : Document := ⟨d.packages.map (·.canonical d.packages)⟩

lemma DependencyEntry.Vendor.exists_getElem? {e : DependencyEntry} {x : PackageEntry}
    (hnodup : (ps.map fun p => Name.normalize p.identity).Nodup) (hp : ps[i]? = some p)
    (hx : e.Vendor ps p x) : ps[e.vendor ps i]? = some x := by
  obtain ⟨v, hv⟩ := (judges_productPackage hp "" e).exists_ok_iff.2 ⟨x, hx⟩
  obtain ⟨-, rfl, y, hy, hey⟩ := (judges_productPackage hp "" e).of_ok hv
  rw [hy, hx.unique hnodup hey]

lemma DependencyEntry.Vendor.vendorIdentity {e : DependencyEntry} {x : PackageEntry}
    (hnodup : (ps.map fun p => Name.normalize p.identity).Nodup)
    (hx : e.Vendor ps p x) : e.vendorIdentity ps p = x.identity := by
  unfold DependencyEntry.vendorIdentity
  unfold DependencyEntry.Vendor at hx
  split at hx
  · next hown => rw [if_pos hown, hx]
  · next hown =>
    rw [if_neg hown]
    cases hy : ps.find? fun x => Name.normalize x.identity = Name.normalize e.package with
    | none =>
      rw [List.find?_eq_none] at hy
      exact absurd hx.2 (by simpa using hy x hx.1)
    | some y =>
      have hname : Name.normalize y.identity = Name.normalize e.package := by
        simpa using List.find?_some hy
      have hxy := List.inj_on_of_nodup_map hnodup (List.mem_of_find?_eq_some hy) hx.1
        (hname.trans hx.2.symm)
      rw [hxy]
      rfl

/-! ### Writing -/

lemma forall₂_range' {R : α → Nat → Prop} {l : List α} {a : Nat}
    (h : ∀ j x, l[j]? = some x → R x (a + j)) : List.Forall₂ R l (List.range' a l.length) := by
  induction l generalizing a with
  | nil => exact .nil
  | cons x l ih =>
    refine .cons (h 0 x rfl) (ih fun j y hj => ?_)
    rw [Nat.add_assoc, Nat.add_comm 1 j]
    exact h (j + 1) y hj

lemma mapM_range' {f : Nat → Except Fault β} {h : α → β} {l : List α} {a : Nat}
    (hf : ∀ j x, l[j]? = some x → f (a + j) = .ok (h x)) :
    (List.range' a l.length).mapM f = .ok (l.map h) := by
  rw [Fault.mapM_eq_ok_iff, List.forall₂_map_right_iff]
  exact (forall₂_range' hf).flip

lemma DependencyEntry.Names.eq_of_module {e : DependencyEntry} (he : e.Names ps p)
    (hm : e.module ≠ "") : e = { module := e.module } := by
  obtain ⟨hpackage, haliases, -⟩ := he.module hm
  have hproduct : e.product = "" := by
    by_contra hq
    exact he.single (by simp [hm, hq])
  obtain ⟨module, product, package, ⟨entries, hsorted⟩⟩ := e
  obtain rfl : entries = [] := by simpa [SortedMap.isEmpty] using haliases
  simp_all [SortedMap.empty]

lemma DependencyEntry.Names.exists_module {e : DependencyEntry} (he : e.Names ps p)
    (hp : ps[i]? = some p) (hm : e.module ≠ "") : ∃ j m, p.modules[j]? = some m ∧
      m.name = e.module ∧ e.target ps i = .module (moduleStart ps i + j) := by
  obtain ⟨-, -, hname⟩ := he.module hm
  obtain ⟨m, hj, hmname⟩ := exists_findIdx hname
  exact ⟨_, m, hj, hmname, by simp [DependencyEntry.target, hm, modulePosition, hp]⟩

lemma DependencyEntry.Names.exists_product {e : DependencyEntry} (he : e.Names ps p)
    (hnodup : (ps.map fun p => Name.normalize p.identity).Nodup) (hp : ps[i]? = some p)
    (hm : e.module = "") : ∃ x j q, e.Vendor ps p x ∧ ps[e.vendor ps i]? = some x ∧
      x.products[j]? = some q ∧ q.name = e.product ∧ e.target ps i =
        .product (productStart ps (e.vendor ps i) + j)
          (e.aliases.entries.map fun a => ⟨a.1, a.2⟩) := by
  have hq : e.product ≠ "" := fun hq => he.single (by simp [hm, hq])
  obtain ⟨x, hx, hname⟩ := he.product hq
  have hvendor := hx.exists_getElem? hnodup hp
  obtain ⟨q, hj, hqname⟩ := exists_findIdx hname
  exact ⟨x, _, q, hx, hvendor, hj, hqname,
    by simp [DependencyEntry.target, hm, productPosition, hvendor]⟩

lemma dependencyEntry_graph (hd : d.WellFormed) (hp : d.packages[i]? = some p)
    {e : DependencyEntry} (he : e.Names d.packages p) :
    dependencyEntry d.graph (e.target d.packages i) = .ok (e.canonical d.packages p) := by
  by_cases hm : e.module = ""
  · obtain ⟨x, j, q, hx, hvendor, hq, hqname, htarget⟩ := he.exists_product hd.distinct hp hm
    have haliases : SortedMap.ofList ((e.aliases.entries.map fun a => AliasRequest.mk a.1 a.2).map
        fun a => (a.name, a.replacement)) = e.aliases := by
      simpa [Function.comp_def] using ofList_entries e.aliases
    rw [htarget, dependencyEntry, product_graph hvendor hq, DependencyEntry.canonical,
      if_neg (not_not.2 hm), hx.vendorIdentity hd.distinct]
    simp only [bind, Except.bind, ProductEntry.row, package_graph hvendor, haliases, hqname,
      PackageEntry.row, pure, Except.pure, hm]
  · obtain ⟨j, m, hj, hmname, htarget⟩ := he.exists_module hp hm
    rw [htarget, dependencyEntry, module_graph hp hj, DependencyEntry.canonical, if_pos hm,
      he.eq_of_module hm]
    simp [bind, Except.bind, pure, Except.pure, ModuleEntry.row, hmname]

lemma moduleEntry_graph (hd : d.WellFormed) (hp : d.packages[i]? = some p) {j : Nat}
    {m : ModuleEntry} (hj : p.modules[j]? = some m) :
    moduleEntry d.graph (moduleStart d.packages i + j) = .ok (m.canonical d.packages p) := by
  have hdependencies : (targets d.packages (m, i)).mapM (dependencyEntry d.graph) =
      .ok (m.dependencies.map (·.canonical d.packages p)) := by
    rw [targets, List.mapM_map]
    refine Fault.mapM_eq_ok_of_forall fun e he => dependencyEntry_graph hd hp ?_
    exact hd.resolved p (List.mem_of_getElem? hp) m (List.mem_of_getElem? hj) e he
  rw [moduleEntry, module_graph hp hj]
  simp [bind, Except.bind, pure, Except.pure, hdependencies, ModuleEntry.row,
    ModuleEntry.canonical]

lemma productEntry_graph (hd : d.WellFormed) (hp : d.packages[i]? = some p) {j : Nat}
    {q : ProductEntry} (hj : p.products[j]? = some q) :
    productEntry d.graph (productStart d.packages i + j) = .ok q := by
  have hq := (hd.consistent p (List.mem_of_getElem? hp)).contents q (List.mem_of_getElem? hj)
  have hmodules : (q.row i (moduleStart d.packages i) p.modules).modules.mapM
      (fun m => do return (← d.graph.module m).name) = .ok (q.modules.map id) := by
    rw [ProductEntry.row, List.mapM_map]
    refine Fault.mapM_eq_ok_of_forall fun name hname => ?_
    obtain ⟨m, hm, hmname⟩ := exists_findIdx (hq name hname)
    simp [bind, Except.bind, pure, Except.pure, module_graph hp hm, ModuleEntry.row, hmname]
  rw [List.map_id] at hmodules
  rw [productEntry, product_graph hp hj]
  simp only [bind, Except.bind] at hmodules ⊢
  rw [hmodules]
  rfl

lemma packageEntry_graph (hd : d.WellFormed) (hp : d.packages[i]? = some p) :
    packageEntry d.graph (p.row (moduleStart d.packages i) (productStart d.packages i)) =
      .ok (p.canonical d.packages) := by
  have hmodules : (List.range' (moduleStart d.packages i) p.modules.length).mapM
      (moduleEntry d.graph) = .ok (p.modules.map (·.canonical d.packages p)) :=
    mapM_range' fun j m hj => moduleEntry_graph hd hp hj
  have hproducts : (List.range' (productStart d.packages i) p.products.length).mapM
      (productEntry d.graph) = .ok (p.products.map id) :=
    mapM_range' fun j q hj => productEntry_graph hd hp hj
  rw [List.map_id] at hproducts
  simp only [packageEntry, PackageEntry.row, hmodules, hproducts]
  rfl

/-- **Writing the graph of a well-formed document gives its canonical form.** -/
theorem ofGraph_graph (hd : d.WellFormed) : ofGraph d.graph = .ok d.canonical := by
  have hpackages : d.graph.packages.mapM (packageEntry d.graph) = .ok d.canonical.packages := by
    have htable : d.graph.packages = _ := packages_declared d.packages
    have hcanonical : d.canonical.packages =
        d.packages.zipIdx.map fun r => r.1.canonical d.packages := by
      have hmap : d.packages.zipIdx.map (fun r => r.1.canonical d.packages) =
          (d.packages.zipIdx.map Prod.fst).map (·.canonical d.packages) := by
        rw [List.map_map]
        rfl
      rw [hmap, List.zipIdx_map_fst]
      rfl
    rw [htable, hcanonical, List.mapM_map]
    refine Fault.mapM_eq_ok_of_forall fun r hr => ?_
    rw [List.mem_zipIdx_iff_getElem?] at hr
    exact packageEntry_graph hd hr
  rw [ofGraph, hpackages]
  rfl

end BuildPlanner.Document
