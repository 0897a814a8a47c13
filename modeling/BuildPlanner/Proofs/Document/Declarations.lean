import BuildPlanner.Proofs.Document.Verdict
import Mathlib.Data.List.Nodup
import Mathlib.Data.List.Range

/-!
What the declarations of a document put into a graph.

A package is declared with its modules and products in one block at the end of each table, so
the modules of a package have consecutive positions, and a name is found at the position of the
entry with that name (`findModuleIn_declare`). Packages are accepted exactly if their identities
are new and different, and the names of each of them are consistent (`judges_declarePackages`).
-/

namespace BuildPlanner.Document

/-! ### Rows -/

def ModuleEntry.row (owner : PackageId) (m : ModuleEntry) : Module where
  name := m.name
  owner := owner
  kind := m.kind
  sources := m.sourceSet

/-- The modules of a product stand behind the position `a` of the first module of its package. -/
def ProductEntry.row (owner : PackageId) (a : ModuleId) (ms : List ModuleEntry)
    (q : ProductEntry) : Product where
  name := q.name
  owner := owner
  kind := q.kind
  modules := q.modules.map fun name => a + ms.findIdx (·.name = name)

/-- The package whose modules begin at `a` and whose products begin at `b`. -/
def PackageEntry.row (p : PackageEntry) (a : ModuleId) (b : ProductId) : Package where
  identity := Name.normalize p.identity
  display := p.identity
  location := p.location
  tools := p.tools
  isRoot := p.isRoot
  modules := List.range' a p.modules.length
  products := List.range' b p.products.length

/-- The graph with a package behind the others. -/
def declare (g : Graph) (p : PackageEntry) : Graph where
  packages := g.packages ++ [p.row g.modules.length g.products.length]
  modules := g.modules ++ p.modules.map (·.row g.packages.length)
  products := g.products ++ p.products.map (·.row g.packages.length g.modules.length p.modules)

/-- The names in a package are consistent: they are different, and products name modules of it. -/
structure PackageEntry.IsConsistent (p : PackageEntry) : Prop where
  modules : (p.modules.map (·.name)).Nodup
  products : (p.products.map (·.name)).Nodup
  contents : ∀ q ∈ p.products, ∀ name ∈ q.modules, ∃ m ∈ p.modules, m.name = name

/-! ### Looking up names -/

variable {g : Graph} {p : PackageEntry}

lemma firstModule_range' {ms : List ModuleEntry} {a : ModuleId} (name : String)
    (h : ∀ j m, ms[j]? = some m → (g.modules[a + j]?).map (·.name) = some m.name) :
    g.firstModule name (List.range' a ms.length) =
      .ok ((ms.findIdx? (·.name = name)).map (a + ·)) := by
  induction ms generalizing a with
  | nil => rfl
  | cons m ms ih =>
    have hm : (g.modules[a]?).map (·.name) = some m.name := h 0 m rfl
    obtain ⟨x, hx, hname⟩ := Option.map_eq_some_iff.1 hm
    have hrest := ih (a := a + 1) fun j m' hj => by
      rw [Nat.add_assoc, Nat.add_comm 1 j]
      exact h (j + 1) m' hj
    have hx : g.module a = .ok x := by simp [Graph.module, hx]
    rw [List.length_cons, List.range'_succ, Graph.firstModule, hx, List.findIdx?_cons]
    by_cases hn : m.name = name
    · simp [hname, hn, bind, Except.bind, pure, Except.pure]
    · rw [hrest]
      simp [hname, hn, bind, Except.bind, Function.comp_def, Nat.add_assoc, Nat.add_comm 1]

lemma firstProduct_range' {qs : List ProductEntry} {b : ProductId} (name : String)
    (h : ∀ j q, qs[j]? = some q → (g.products[b + j]?).map (·.name) = some q.name) :
    g.firstProduct name (List.range' b qs.length) =
      .ok ((qs.findIdx? (·.name = name)).map (b + ·)) := by
  induction qs generalizing b with
  | nil => rfl
  | cons q qs ih =>
    have hq : (g.products[b]?).map (·.name) = some q.name := h 0 q rfl
    obtain ⟨x, hx, hname⟩ := Option.map_eq_some_iff.1 hq
    have hrest := ih (b := b + 1) fun j q' hj => by
      rw [Nat.add_assoc, Nat.add_comm 1 j]
      exact h (j + 1) q' hj
    have hx : g.product b = .ok x := by simp [Graph.product, hx]
    rw [List.length_cons, List.range'_succ, Graph.firstProduct, hx, List.findIdx?_cons]
    by_cases hn : q.name = name
    · simp [hname, hn, bind, Except.bind, pure, Except.pure]
    · rw [hrest]
      simp [hname, hn, bind, Except.bind, Function.comp_def, Nat.add_assoc, Nat.add_comm 1]

/-- An entry has been put into the tables of a graph as the package at a position. -/
structure Placed (g : Graph) (i : PackageId) (p : PackageEntry) (a : ModuleId) (b : ProductId) :
    Prop where
  package : g.packages[i]? = some (p.row a b)
  modules : ∀ j m, p.modules[j]? = some m → g.modules[a + j]? = some (m.row i)
  products : ∀ j q, p.products[j]? = some q → g.products[b + j]? = some (q.row i a p.modules)

namespace Placed

variable {i : PackageId} {a : ModuleId} {b : ProductId}

lemma package_eq_ok (h : Placed g i p a b) : g.package i = .ok (p.row a b) := by
  rw [Graph.package, h.package]

lemma findModuleIn (h : Placed g i p a b) (name : String) :
    g.findModuleIn i name = .ok ((p.modules.findIdx? (·.name = name)).map (a + ·)) := by
  rw [Graph.findModuleIn, h.package_eq_ok]
  refine firstModule_range' name fun j m hj => ?_
  rw [h.modules j m hj]
  rfl

lemma findProductIn (h : Placed g i p a b) (name : String) :
    g.findProductIn i name = .ok ((p.products.findIdx? (·.name = name)).map (b + ·)) := by
  rw [Graph.findProductIn, h.package_eq_ok]
  refine firstProduct_range' name fun j q hj => ?_
  rw [h.products j q hj]
  rfl

end Placed

lemma placed_declare (g : Graph) (p : PackageEntry) :
    Placed (declare g p) g.packages.length p g.modules.length g.products.length where
  package := by simp [declare]
  modules j m hj := by
    rw [declare, List.getElem?_append_right (Nat.le_add_right ..), Nat.add_sub_cancel_left,
      List.getElem?_map, hj]
    rfl
  products j q hj := by
    rw [declare, List.getElem?_append_right (Nat.le_add_right ..), Nat.add_sub_cancel_left,
      List.getElem?_map, hj]
    rfl

/-! ### One entry at a time -/

lemma modify_append_singleton {α : Type} (l : List α) (x : α) (f : α → α) :
    (l ++ [x]).modify l.length f = l ++ [f x] := by
  simp [List.modify_eq_take_cons_drop]

/-- The part of a package that is in the graph while its modules are declared. -/
def PackageEntry.withModules (p : PackageEntry) (ms : List ModuleEntry) : PackageEntry :=
  { p with modules := ms, products := [] }

/-- The part of a package that is in the graph while its products are declared. -/
def PackageEntry.withProducts (p : PackageEntry) (qs : List ProductEntry) : PackageEntry :=
  { p with products := qs }

lemma addModule_declare {ms : List ModuleEntry} {m : ModuleEntry}
    (h : ∀ x ∈ ms, x.name ≠ m.name) :
    (declare g (p.withModules ms)).addModule g.packages.length m.name m.kind m.sourceSet =
      .ok (declare g (p.withModules (ms ++ [m]))) := by
  have hnone : ms.findIdx? (·.name = m.name) = none := by simpa using h
  rw [Graph.addModule, (placed_declare g _).findModuleIn, PackageEntry.withModules, hnone]
  simp [bind, Except.bind, pure, Except.pure, declare, PackageEntry.withModules,
    PackageEntry.row, ModuleEntry.row, modify_append_singleton, List.range'_concat]

lemma judges_declareModule (ms : List ModuleEntry) (m : ModuleEntry) :
    Judges (declareModule g.packages.length p.identity (declare g (p.withModules ms)) m)
      (∀ x ∈ ms, x.name ≠ m.name) (· = declare g (p.withModules (ms ++ [m]))) := by
  unfold declareModule
  refine Judges.known ((placed_declare g _).findModuleIn m.name) ?_
  refine Judges.congr (Judges.guard (P := True) ?_ fun hnew => ?_) ?_
  · simp
  · have hnew : ∀ x ∈ ms, x.name ≠ m.name := by simpa [PackageEntry.withModules] using hnew
    rw [addModule_declare hnew]
    exact Judges.ok rfl
  · simp [PackageEntry.withModules]

/-! ### Products -/

lemma checkOwned_eq_ok {owner : PackageId} {ms : List ModuleId}
    (h : ∀ m ∈ ms, ∃ x, g.modules[m]? = some x ∧ x.owner = owner) :
    g.checkOwned owner ms = .ok () := by
  induction ms with
  | nil => rfl
  | cons m ms ih =>
    obtain ⟨x, hx, howner⟩ := h m (by simp)
    have hx : g.module m = .ok x := by simp [Graph.module, hx]
    rw [Graph.checkOwned, hx]
    simpa [bind, Except.bind, pure, Except.pure, howner] using ih fun n hn => h n (by simp [hn])

lemma judges_productModule (qs : List ProductEntry) (product name : String) :
    Judges (productModule g.packages.length p.identity (declare g (p.withProducts qs)) product name)
      (∃ m ∈ p.modules, m.name = name)
      (· = g.modules.length + p.modules.findIdx (·.name = name)) := by
  unfold productModule
  refine Judges.known ((placed_declare g _).findModuleIn name) ?_
  simp only [PackageEntry.withProducts]
  cases hm : p.modules.findIdx? (·.name = name) with
  | none =>
    refine .refuses rfl ?_ (by simp)
    simpa using hm
  | some j =>
    obtain ⟨hj, hname, -⟩ := List.findIdx?_eq_some_iff_getElem.1 hm
    refine .accepts rfl ⟨p.modules[j], List.getElem_mem hj, by simpa using hname⟩ ?_
    simp [List.findIdx_eq_getD_findIdx?, hm]

lemma owned_of_mem_row {q : ProductEntry} (qs : List ProductEntry)
    (hq : ∀ name ∈ q.modules, ∃ m ∈ p.modules, m.name = name) :
    ∀ m ∈ (q.row g.packages.length g.modules.length p.modules).modules,
      ∃ x, (declare g (p.withProducts qs)).modules[m]? = some x ∧ x.owner = g.packages.length := by
  intro m hm
  obtain ⟨name, hname, rfl⟩ := List.mem_map.1 hm
  obtain ⟨x, hx, hxname⟩ := hq name hname
  have hlt : p.modules.findIdx (·.name = name) < p.modules.length :=
    List.findIdx_lt_length_of_exists ⟨x, hx, by simpa using hxname⟩
  have hplaced := (placed_declare g (p.withProducts qs)).modules _ _ (List.getElem?_eq_getElem hlt)
  exact ⟨_, hplaced, rfl⟩

lemma addProduct_declare {qs : List ProductEntry} {q : ProductEntry}
    (hnew : ∀ x ∈ qs, x.name ≠ q.name)
    (hq : ∀ name ∈ q.modules, ∃ m ∈ p.modules, m.name = name) :
    (declare g (p.withProducts qs)).addProduct g.packages.length q.name q.kind
        (q.row g.packages.length g.modules.length p.modules).modules =
      .ok (declare g (p.withProducts (qs ++ [q]))) := by
  have hnone : qs.findIdx? (·.name = q.name) = none := by simpa using hnew
  have howned := checkOwned_eq_ok (owned_of_mem_row (g := g) qs hq)
  rw [Graph.addProduct, (placed_declare g _).findProductIn, howned]
  simp [bind, Except.bind, pure, Except.pure, declare, PackageEntry.withProducts, hnone,
    PackageEntry.row, ProductEntry.row, modify_append_singleton, List.range'_concat]

lemma judges_declareProduct (qs : List ProductEntry) (q : ProductEntry) :
    Judges (declareProduct g.packages.length p.identity (declare g (p.withProducts qs)) q)
      ((∀ x ∈ qs, x.name ≠ q.name) ∧ ∀ name ∈ q.modules, ∃ m ∈ p.modules, m.name = name)
      (· = declare g (p.withProducts (qs ++ [q]))) := by
  unfold declareProduct
  refine Judges.known ((placed_declare g _).findProductIn q.name) ?_
  refine Judges.congr (Judges.guard
    (P := (∀ name ∈ q.modules, ∃ m ∈ p.modules, m.name = name) ∧ True) ?_ fun hnew => ?_) ?_
  · simp
  · have hnew : ∀ x ∈ qs, x.name ≠ q.name := by simpa [PackageEntry.withProducts] using hnew
    have hmodules := Judges.mapM (l := q.modules) fun name _ =>
      judges_productModule (g := g) (p := p) qs q.name name
    refine hmodules.bind fun ids hq hids => ?_
    have hids : ids = (q.row g.packages.length g.modules.length p.modules).modules := by
      have hflip := hids.imp fun _ _ => Eq.symm
      rw [← List.forall₂_map_left_iff, List.forall₂_eq_eq_eq] at hflip
      exact hflip.symm
    rw [hids, addProduct_declare hnew hq]
    exact Judges.ok rfl
  · simp [PackageEntry.withProducts]

/-! ### Packages -/

/-- A package goes with those before it: it has an identity that is new, and consistent names. -/
structure PackageEntry.Fits (p : PackageEntry) (g : Graph) : Prop where
  identity : p.identity ≠ ""
  new : ∀ x ∈ g.packages, x.identity ≠ Name.normalize p.identity
  consistent : p.IsConsistent

lemma findPackage?_eq_none {identity : String} :
    g.findPackage? identity = none ↔ ∀ x ∈ g.packages, x.identity ≠ Name.normalize identity := by
  simp [Graph.findPackage?]

lemma addPackage_eq_ok (h : ∀ x ∈ g.packages, x.identity ≠ Name.normalize p.identity) :
    g.addPackage p.identity p.location p.tools p.isRoot = .ok (declare g (p.withModules [])) := by
  rw [Graph.addPackage, findPackage?_eq_none.2 h]
  simp [declare, PackageEntry.row, PackageEntry.withModules]

lemma judges_declareModules (g : Graph) (p : PackageEntry) :
    Judges (p.modules.foldlM (declareModule g.packages.length p.identity)
        (declare g (p.withModules [])))
      ((p.modules.map (·.name)).Nodup) (· = declare g (p.withModules p.modules)) := by
  have hfold := Judges.foldlM (R := fun x m => x.name ≠ m.name) (C := fun _ => True)
    (fun ms m => (judges_declareModule (g := g) (p := p) ms m).congr (by simp)) [] p.modules
  refine hfold.congr ?_
  simp [List.Nodup, List.pairwise_map]

lemma judges_declareProducts (g : Graph) (p : PackageEntry) :
    Judges (p.products.foldlM (declareProduct g.packages.length p.identity)
        (declare g (p.withProducts [])))
      ((p.products.map (·.name)).Nodup ∧
        ∀ q ∈ p.products, ∀ name ∈ q.modules, ∃ m ∈ p.modules, m.name = name)
      (· = declare g p) := by
  have hfold := Judges.foldlM (judges_declareProduct (g := g) (p := p)) [] p.products
  refine hfold.congr ?_
  simp [List.Nodup, List.pairwise_map]

/-- **A package is accepted exactly if it fits, and is put in one block behind the others.** -/
theorem judges_declarePackage (g : Graph) (p : PackageEntry) :
    Judges (declarePackage g p) (p.Fits g) (· = declare g p) := by
  unfold declarePackage
  refine Judges.congr (Judges.guard
    (P := ¬ (g.findPackage? p.identity).isSome ∧ p.IsConsistent) ?_ fun hidentity =>
      Judges.guard ?_ fun hnew => ?_) ?_
  · simp
  · simp
  · have hnew : ∀ x ∈ g.packages, x.identity ≠ Name.normalize p.identity := by
      rwa [Option.not_isSome_iff_eq_none, findPackage?_eq_none] at hnew
    refine Judges.known (addPackage_eq_ok hnew) ?_
    have hrest := (judges_declareModules g p).bind (f := fun g' =>
      p.products.foldlM (declareProduct g.packages.length p.identity) g') fun g' _ hmodules => by
        rw [hmodules]
        exact judges_declareProducts g p
    exact hrest.congr ⟨fun h => ⟨h.1, h.2.1, h.2.2⟩, fun h => ⟨h.modules, h.products, h.contents⟩⟩
  · rw [Option.not_isSome_iff_eq_none, findPackage?_eq_none]
    exact ⟨fun h => ⟨h.1, h.2.1, h.2.2⟩, fun h => ⟨h.identity, h.new, h.consistent⟩⟩

/-! ### All packages -/

/-- The graph that packages describe but for the dependencies of their modules. -/
def declared (ps : List PackageEntry) : Graph := ps.foldl declare {}

lemma declared_append_singleton (ps : List PackageEntry) (p : PackageEntry) :
    declared (ps ++ [p]) = declare (declared ps) p := by
  simp [declared]

lemma identities_declared (ps : List PackageEntry) :
    (declared ps).packages.map (·.identity) = ps.map fun p => Name.normalize p.identity := by
  induction ps using List.reverseRecOn with
  | nil => rfl
  | append_singleton ps p ih => simp [declared_append_singleton, declare, PackageEntry.row, ih]

/-- **Packages are accepted exactly if their identities are different and not empty, and each of
them is consistent.** -/
theorem judges_declarePackages (ps : List PackageEntry) :
    Judges (ps.foldlM declarePackage {})
      ((∀ p ∈ ps, p.identity ≠ "") ∧ (ps.map fun p => Name.normalize p.identity).Nodup ∧
        ∀ p ∈ ps, p.IsConsistent)
      (· = declared ps) := by
  have hstep : ∀ l p, Judges (declarePackage (declared l) p)
      ((∀ x ∈ l, Name.normalize x.identity ≠ Name.normalize p.identity) ∧
        p.identity ≠ "" ∧ p.IsConsistent)
      (· = declared (l ++ [p])) := by
    intro l p
    rw [declared_append_singleton]
    refine (judges_declarePackage (declared l) p).congr ?_
    have hnew : (∀ x ∈ (declared l).packages, x.identity ≠ Name.normalize p.identity) ↔
        ∀ x ∈ l, Name.normalize x.identity ≠ Name.normalize p.identity := by
      have hids := identities_declared l
      have hmap : (∀ x ∈ (declared l).packages.map (·.identity), x ≠ Name.normalize p.identity) ↔
          ∀ x ∈ l, Name.normalize x.identity ≠ Name.normalize p.identity := by
        rw [hids, List.forall_mem_map]
      rwa [List.forall_mem_map] at hmap
    rw [← hnew]
    exact ⟨fun h => ⟨h.new, h.identity, h.consistent⟩, fun h => ⟨h.2.1, h.1, h.2.2⟩⟩
  refine (Judges.foldlM hstep [] ps).congr ?_
  simp [List.Nodup, List.pairwise_map, forall_and]
  tauto

end BuildPlanner.Document
