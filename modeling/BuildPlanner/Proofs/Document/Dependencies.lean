import BuildPlanner.Proofs.Document.Declarations
import Mathlib.Algebra.Ring.Nat
import Mathlib.Data.List.GetD

/-!
What the dependencies of a document put into a graph.

When dependencies are added all packages are declared, and adding one changes no package, name or
product. So every dependency is resolved as it would be in the graph of the declarations alone,
and the graph of a document is that graph with the resolved dependencies of each module put in
(`judges_toGraph`).
-/

namespace BuildPlanner.Document

/-! ### Positions -/

variable {ps : List PackageEntry} {p : PackageEntry} {i : PackageId}

def moduleStart (ps : List PackageEntry) (i : PackageId) : ModuleId :=
  ((ps.take i).map (·.modules.length)).sum

def productStart (ps : List PackageEntry) (i : PackageId) : ProductId :=
  ((ps.take i).map (·.products.length)).sum

/-- The modules of all packages in the order of their positions, each with its package. -/
def moduleRows (ps : List PackageEntry) : List (ModuleEntry × PackageId) :=
  ps.zipIdx.flatMap fun p => p.1.modules.map fun m => (m, p.2)

lemma moduleRows_append_singleton (ps : List PackageEntry) (p : PackageEntry) :
    moduleRows (ps ++ [p]) = moduleRows ps ++ p.modules.map fun m => (m, ps.length) := by
  simp [moduleRows, List.zipIdx_append]

lemma length_packages_declared (ps : List PackageEntry) :
    (declared ps).packages.length = ps.length := by
  simpa using congrArg List.length (identities_declared ps)

lemma length_modules_declared (ps : List PackageEntry) :
    (declared ps).modules.length = moduleStart ps ps.length := by
  induction ps using List.reverseRecOn with
  | nil => rfl
  | append_singleton ps p ih =>
    rw [declared_append_singleton, declare, List.length_append, ih, moduleStart, moduleStart,
      List.take_length, List.take_length]
    simp

lemma length_products_declared (ps : List PackageEntry) :
    (declared ps).products.length = productStart ps ps.length := by
  induction ps using List.reverseRecOn with
  | nil => rfl
  | append_singleton ps p ih =>
    rw [declared_append_singleton, declare, List.length_append, ih, productStart, productStart,
      List.take_length, List.take_length]
    simp

lemma modules_declared (ps : List PackageEntry) :
    (declared ps).modules = (moduleRows ps).map fun r => r.1.row r.2 := by
  induction ps using List.reverseRecOn with
  | nil => rfl
  | append_singleton ps p ih =>
    rw [declared_append_singleton, declare, ih, moduleRows_append_singleton,
      length_packages_declared]
    simp

lemma length_moduleRows (ps : List PackageEntry) :
    (moduleRows ps).length = moduleStart ps ps.length := by
  rw [← length_modules_declared, modules_declared, List.length_map]

lemma moduleStart_append_singleton (q : PackageEntry) (h : i ≤ ps.length) :
    moduleStart (ps ++ [q]) i = moduleStart ps i := by
  rw [moduleStart, moduleStart, List.take_append_of_le_length h]

lemma Placed.mono {g : Graph} {a : ModuleId} {b : ProductId} (h : Placed g i p a b)
    (q : PackageEntry) : Placed (declare g q) i p a b where
  package := List.getElem?_append_left (List.getElem?_eq_some_iff.1 h.package).1 ▸ h.package
  modules j m hj :=
    List.getElem?_append_left (List.getElem?_eq_some_iff.1 (h.modules j m hj)).1 ▸ h.modules j m hj
  products j q hj :=
    List.getElem?_append_left (List.getElem?_eq_some_iff.1 (h.products j q hj)).1 ▸
      h.products j q hj

/-- **Every package of a document is in the graph at its own position.** -/
theorem placed_declared (h : ps[i]? = some p) :
    Placed (declared ps) i p (moduleStart ps i) (productStart ps i) := by
  induction ps using List.reverseRecOn with
  | nil => cases h
  | append_singleton ps q ih =>
    rw [declared_append_singleton]
    rcases Nat.lt_trichotomy i ps.length with hlt | rfl | hgt
    · have hold : ps[i]? = some p := by rwa [List.getElem?_append_left hlt] at h
      have htake : (ps ++ [q]).take i = ps.take i := List.take_append_of_le_length hlt.le
      rw [moduleStart, productStart, htake]
      exact (ih hold).mono q
    · obtain rfl : q = p := by simpa using h
      have hplaced := placed_declare (declared ps) q
      rw [length_packages_declared, length_modules_declared, length_products_declared] at hplaced
      simpa [moduleStart, productStart] using hplaced
    · have hlength : (ps ++ [q]).length ≤ i := by simpa using Nat.succ_le_of_lt hgt
      rw [List.getElem?_eq_none hlength] at h
      cases h

lemma exists_of_moduleRows {k : ModuleId} {m : ModuleEntry}
    (h : (moduleRows ps)[k]? = some (m, i)) :
    ∃ p j, ps[i]? = some p ∧ p.modules[j]? = some m ∧ k = moduleStart ps i + j := by
  induction ps using List.reverseRecOn with
  | nil => cases h
  | append_singleton ps q ih =>
    rw [moduleRows_append_singleton] at h
    rcases Nat.lt_or_ge k (moduleRows ps).length with hlt | hge
    · rw [List.getElem?_append_left hlt] at h
      obtain ⟨p, j, hp, hj, rfl⟩ := ih h
      have hi : i < ps.length := (List.getElem?_eq_some_iff.1 hp).1
      refine ⟨p, j, by rwa [List.getElem?_append_left hi], hj, ?_⟩
      rw [moduleStart_append_singleton q hi.le]
    · rw [List.getElem?_append_right hge, List.getElem?_map] at h
      obtain ⟨x, hx, hxi⟩ := Option.map_eq_some_iff.1 h
      obtain ⟨rfl, rfl⟩ := Prod.mk.inj hxi
      refine ⟨q, k - (moduleRows ps).length, by simp, hx, ?_⟩
      rw [moduleStart_append_singleton q le_rfl, ← length_moduleRows, Nat.add_sub_cancel' hge]

lemma findModuleIn_moduleRows {k : ModuleId} {m : ModuleEntry}
    (hps : ∀ p ∈ ps, p.IsConsistent) (h : (moduleRows ps)[k]? = some (m, i)) :
    (declared ps).findModuleIn i m.name = .ok (some k) := by
  obtain ⟨p, j, hp, hj, rfl⟩ := exists_of_moduleRows h
  have hnodup := (hps p (List.mem_of_getElem? hp)).modules
  obtain ⟨hlt, hm⟩ := List.getElem?_eq_some_iff.1 hj
  have hfind : p.modules.findIdx? (·.name = m.name) = some j := by
    refine List.findIdx?_eq_some_iff_getElem.2 ⟨hlt, by simp [hm], fun j' hj' => ?_⟩
    have hne := List.pairwise_iff_getElem.1 (List.pairwise_map.1 hnodup) j' j (hj'.trans hlt) hlt
      hj'
    simpa [hm] using hne
  rw [(placed_declared hp).findModuleIn, hfind]
  rfl

/-! ### Graphs with dependencies put in -/

variable {g : Graph}

/-- The graph with the given dependencies of its modules, in the order of the modules. -/
def connect (g : Graph) (dss : List (List Dependency)) : Graph :=
  { g with modules := g.modules.mapIdx fun k m => { m with dependencies := dss.getD k [] } }

lemma module_connect (dss : List (List Dependency)) (k : ModuleId) :
    (connect g dss).module k =
      (g.module k).map fun m => { m with dependencies := dss.getD k [] } := by
  simp only [Graph.module, connect, List.getElem?_mapIdx]
  cases g.modules[k]? <;> rfl

lemma package_connect (dss : List (List Dependency)) (k : PackageId) :
    (connect g dss).package k = g.package k := rfl

lemma product_connect (dss : List (List Dependency)) (k : ProductId) :
    (connect g dss).product k = g.product k := rfl

lemma findModuleIn_connect (dss : List (List Dependency)) (name : String) :
    (connect g dss).findModuleIn i name = g.findModuleIn i name := by
  have hfirst : ∀ ms, (connect g dss).firstModule name ms = g.firstModule name ms := by
    intro ms
    induction ms with
    | nil => rfl
    | cons m ms ih =>
      rw [Graph.firstModule, Graph.firstModule, module_connect, ih]
      cases g.module m <;> rfl
  simp only [Graph.findModuleIn, hfirst, package_connect]

lemma findProductIn_connect (dss : List (List Dependency)) (name : String) :
    (connect g dss).findProductIn i name = g.findProductIn i name := by
  have hfirst : ∀ qs, (connect g dss).firstProduct name qs = g.firstProduct name qs := by
    intro qs
    induction qs with
    | nil => rfl
    | cons q qs ih =>
      rw [Graph.firstProduct, Graph.firstProduct, ih, product_connect]
  simp only [Graph.findProductIn, hfirst, package_connect]

lemma resolveDependency_connect (dss : List (List Dependency)) (name : String)
    (e : DependencyEntry) :
    resolveDependency i (connect g dss) name e = resolveDependency i g name e := by
  have hmodule : moduleDependency i (connect g dss) name e = moduleDependency i g name e := by
    simp only [moduleDependency, findModuleIn_connect]
  have hpackage : productPackage i (connect g dss) name e = productPackage i g name e := rfl
  have hproduct : productDependency i (connect g dss) name e = productDependency i g name e := by
    simp only [productDependency, findProductIn_connect, hpackage, package_connect]
  rw [resolveDependency, resolveDependency, hmodule, hproduct]

lemma connect_declared_nil (ps : List PackageEntry) : connect (declared ps) [] = declared ps := by
  have hmodules : (connect (declared ps) []).modules = (declared ps).modules := by
    refine List.ext_getElem? fun k => ?_
    rw [connect, List.getElem?_mapIdx, modules_declared, List.getElem?_map]
    cases (moduleRows ps)[k]? <;> rfl
  exact congrArg (fun ms => { declared ps with modules := ms }) hmodules

/-- A module without dependencies is as before. -/
lemma connect_append_nil (dss : List (List Dependency)) :
    connect g (dss ++ [[]]) = connect g dss := by
  have hget : ∀ k, (dss ++ [[]]).getD k [] = dss.getD k [] := by
    intro k
    rcases Nat.lt_trichotomy k dss.length with h | rfl | h
    · rw [List.getD_append _ _ _ _ h]
    · simp
    · have hlong : (dss ++ [[]]).length ≤ k := by
        rw [List.length_append]
        exact h
      rw [List.getD_eq_default _ _ hlong, List.getD_eq_default _ _ h.le]
  simp only [connect, hget]

lemma addDependency_connect {dss : List (List Dependency)} (ds : List Dependency)
    (d : Dependency) (h : dss.length < g.modules.length) :
    (connect g (dss ++ [ds])).addDependency dss.length d =
      .ok (connect g (dss ++ [ds ++ [d]])) := by
  have hlt : dss.length < (connect g (dss ++ [ds])).modules.length := by simpa [connect] using h
  rw [Graph.addDependency, if_pos hlt]
  have hmodules : (connect g (dss ++ [ds])).modules.modify dss.length
        (fun m => { m with dependencies := m.dependencies ++ [d] }) =
      (connect g (dss ++ [ds ++ [d]])).modules := by
    refine List.ext_getElem? fun k => ?_
    rw [List.getElem?_modify, connect, connect, List.getElem?_mapIdx, List.getElem?_mapIdx,
      Option.map_eq_map, Option.map_map]
    refine congrArg (Option.map · g.modules[k]?) (funext fun m => ?_)
    rcases Nat.lt_trichotomy k dss.length with hk | rfl | hk
    · simp [hk.ne', List.getElem?_append_left hk]
    · simp
    · have hlong : ∀ xs, (dss ++ [xs]).length ≤ k := fun xs => by
        rw [List.length_append]
        exact hk
      simp [hk.ne, List.getElem?_eq_none (hlong _)]
  exact congrArg (fun ms => Except.ok { g with modules := ms }) hmodules

/-! ### One dependency -/

/-- The package whose product a dependency of a module of `p` names. -/
def DependencyEntry.Vendor (ps : List PackageEntry) (p : PackageEntry) (e : DependencyEntry)
    (x : PackageEntry) : Prop :=
  if e.package = "" then x = p
  else x ∈ ps ∧ Name.normalize x.identity = Name.normalize e.package

/-- A dependency of a module of `p` names one module of `p` or one product. -/
structure DependencyEntry.Names (ps : List PackageEntry) (p : PackageEntry) (e : DependencyEntry) :
    Prop where
  single : ¬ (e.module = "" ↔ e.product = "")
  module : e.module ≠ "" →
    e.package = "" ∧ e.aliases.isEmpty ∧ ∃ m ∈ p.modules, m.name = e.module
  product : e.product ≠ "" → ∃ x, e.Vendor ps p x ∧ ∃ q ∈ x.products, q.name = e.product

/-- The position of the package whose product a dependency names. -/
def DependencyEntry.vendor (ps : List PackageEntry) (i : PackageId) (e : DependencyEntry) :
    PackageId :=
  if e.package = "" then i
  else ps.findIdx fun x => Name.normalize x.identity = Name.normalize e.package

def modulePosition (ps : List PackageEntry) (i : PackageId) (name : String) : ModuleId :=
  moduleStart ps i + ((ps[i]?.map (·.modules)).getD []).findIdx (·.name = name)

def productPosition (ps : List PackageEntry) (i : PackageId) (name : String) : ProductId :=
  productStart ps i + ((ps[i]?.map (·.products)).getD []).findIdx (·.name = name)

/-- What a dependency that names something leads to. -/
def DependencyEntry.target (ps : List PackageEntry) (i : PackageId) (e : DependencyEntry) :
    Dependency :=
  if e.module ≠ "" then .module (modulePosition ps i e.module)
  else .product (productPosition ps (e.vendor ps i) e.product)
    (e.aliases.entries.map fun a => ⟨a.1, a.2⟩)

lemma findPackage?_declared (identity : String) :
    (declared ps).findPackage? identity =
      ps.findIdx? fun x => Name.normalize x.identity = Name.normalize identity := by
  have hmap : (declared ps).findPackage? identity =
      ((declared ps).packages.map (·.identity)).findIdx? (· = Name.normalize identity) := by
    simp only [Graph.findPackage?, List.findIdx?_map, Function.comp_def]
  rw [hmap, identities_declared]
  simp only [List.findIdx?_map, Function.comp_def]

lemma findIdx?_name {α : Type} (l : List α) (name : α → String) (n : String) :
    (∃ j, l.findIdx? (name · = n) = some j ∧ l.findIdx (name · = n) = j ∧ ∃ x ∈ l, name x = n) ∨
      l.findIdx? (name · = n) = none ∧ ¬ ∃ x ∈ l, name x = n := by
  cases h : l.findIdx? (name · = n) with
  | none => exact .inr ⟨rfl, by simpa using h⟩
  | some j =>
    obtain ⟨hj, hname, -⟩ := List.findIdx?_eq_some_iff_getElem.1 h
    refine .inl ⟨j, rfl, ?_, l[j], List.getElem_mem hj, by simpa using hname⟩
    simp [List.findIdx_eq_getD_findIdx?, h]

lemma judges_moduleDependency (hp : ps[i]? = some p) (name : String) {e : DependencyEntry}
    (he : e.module ≠ "") :
    Judges (moduleDependency i (declared ps) name e)
      (e.package = "" ∧ e.aliases.isEmpty ∧ ∃ m ∈ p.modules, m.name = e.module)
      (· = e.target ps i) := by
  unfold moduleDependency
  refine Judges.congr (Judges.guard (P := ∃ m ∈ p.modules, m.name = e.module) ?_ fun _ => ?_) ?_
  · simp
  · refine Judges.known ((placed_declared hp).findModuleIn e.module) ?_
    obtain ⟨j, hj, hidx, hm⟩ | ⟨hj, hm⟩ := findIdx?_name p.modules (·.name) e.module
    · rw [hj]
      refine .accepts rfl hm ?_
      simp [DependencyEntry.target, he, modulePosition, hp, hidx]
    · rw [hj]
      exact .refuses rfl hm (by simp)
  · simp [and_assoc]

lemma judges_productPackage (hp : ps[i]? = some p) (name : String) (e : DependencyEntry) :
    Judges (productPackage i (declared ps) name e) (∃ x, e.Vendor ps p x)
      (fun v => v = e.vendor ps i ∧ ∃ x, ps[v]? = some x ∧ e.Vendor ps p x) := by
  unfold productPackage DependencyEntry.Vendor DependencyEntry.vendor
  by_cases hown : e.package = ""
  · simp only [if_pos hown]
    exact .accepts rfl ⟨p, rfl⟩ ⟨rfl, p, hp, rfl⟩
  · simp only [if_neg hown, findPackage?_declared]
    cases hv : ps.findIdx? fun x => Name.normalize x.identity = Name.normalize e.package with
    | none =>
      refine .refuses rfl ?_ (by simp)
      simpa using hv
    | some v =>
      obtain ⟨hlt, hname, -⟩ := List.findIdx?_eq_some_iff_getElem.1 hv
      have hx : ps[v] ∈ ps ∧ Name.normalize ps[v].identity = Name.normalize e.package :=
        ⟨List.getElem_mem hlt, by simpa using hname⟩
      refine .accepts rfl ⟨_, hx⟩ ⟨?_, _, List.getElem?_eq_getElem hlt, hx⟩
      simp [List.findIdx_eq_getD_findIdx?, hv]

lemma DependencyEntry.Vendor.unique (hnodup : (ps.map fun p => Name.normalize p.identity).Nodup)
    {e : DependencyEntry} {x y : PackageEntry} (hx : e.Vendor ps p x) (hy : e.Vendor ps p y) :
    x = y := by
  unfold DependencyEntry.Vendor at hx hy
  split at hx
  · next hown =>
    rw [if_pos hown] at hy
    rw [hx, hy]
  · next hown =>
    rw [if_neg hown] at hy
    exact List.inj_on_of_nodup_map hnodup hx.1 hy.1 (hx.2.trans hy.2.symm)

lemma judges_productDependency (hnodup : (ps.map fun p => Name.normalize p.identity).Nodup)
    (hp : ps[i]? = some p) (name : String) {e : DependencyEntry} (he : e.module = "") :
    Judges (productDependency i (declared ps) name e)
      (∃ x, e.Vendor ps p x ∧ ∃ q ∈ x.products, q.name = e.product) (· = e.target ps i) := by
  unfold productDependency
  have hvendor := judges_productPackage hp name e
  refine (hvendor.bind (Q := ∃ x, e.Vendor ps p x ∧ ∃ q ∈ x.products, q.name = e.product)
    fun v _ hv => ?_).congr ⟨fun h => h.2, fun h => ⟨h.imp fun _ hx => hx.1, h⟩⟩
  obtain ⟨rfl, x, hx, hex⟩ := hv
  have hplaced := placed_declared hx
  refine Judges.known (hplaced.findProductIn e.product) ?_
  obtain ⟨j, hj, hidx, hq⟩ | ⟨hj, hq⟩ := findIdx?_name x.products (·.name) e.product
  · rw [hj]
    refine .accepts rfl ⟨x, hex, hq⟩ ?_
    simp [DependencyEntry.target, he, productPosition, hx, hidx]
  · rw [hj]
    -- The refusal names the package, which therefore has to be there.
    refine Judges.known hplaced.package_eq_ok (.refuses rfl ?_ (by simp))
    rintro ⟨y, hey, hqy⟩
    obtain rfl := hey.unique hnodup hex
    exact hq hqy

/-- **A dependency is resolved exactly if it names something.** -/
theorem judges_resolveDependency (hnodup : (ps.map fun p => Name.normalize p.identity).Nodup)
    (hp : ps[i]? = some p) (name : String) (e : DependencyEntry) :
    Judges (resolveDependency i (declared ps) name e) (e.Names ps p) (· = e.target ps i) := by
  unfold resolveDependency
  by_cases hm : e.module = "" <;> by_cases hq : e.product = ""
  · simp only [hm, hq, if_true]
    exact .refuses rfl (fun h => h.single (by simp [hm, hq])) (by simp)
  · simp only [hm, hq, eq_iff_iff, true_iff, if_false, ne_eq, not_true_eq_false]
    refine (judges_productDependency hnodup hp name hm).congr ⟨fun h => ?_, fun h => h.product hq⟩
    exact ⟨by simp [hm, hq], fun hne => absurd hm hne, fun _ => h⟩
  · simp only [hm, hq, eq_iff_iff, iff_true, if_false, ne_eq, not_false_eq_true, if_true]
    refine (judges_moduleDependency hp name hm).congr ⟨fun h => ?_, fun h => h.module hm⟩
    exact ⟨by simp [hm, hq], fun _ => h, fun hne => absurd hq hne⟩
  · simp only [hm, hq, if_true]
    exact .refuses rfl (fun h => h.single (by simp [hm, hq])) (by simp)

/-! ### All dependencies -/

def targets (ps : List PackageEntry) (r : ModuleEntry × PackageId) : List Dependency :=
  r.1.dependencies.map (·.target ps r.2)

/-- The graph that a well-formed document describes. -/
def graph (d : Document) : Graph :=
  connect (declared d.packages) ((moduleRows d.packages).map (targets d.packages))

/-- The graph in which the modules of `done` have their dependencies, and the next module those
of `es`. -/
def connecting (ps : List PackageEntry) (done : List (ModuleEntry × PackageId)) (i : PackageId)
    (es : List DependencyEntry) : Graph :=
  connect (declared ps) (done.map (targets ps) ++ [es.map (·.target ps i)])

lemma judges_connectDependency (hnodup : (ps.map fun p => Name.normalize p.identity).Nodup)
    (hp : ps[i]? = some p) {done : List (ModuleEntry × PackageId)}
    (hlt : done.length < (moduleRows ps).length) (name : String) (es : List DependencyEntry)
    (e : DependencyEntry) :
    Judges (do step ((connecting ps done i es).addDependency done.length
        (← resolveDependency i (connecting ps done i es) name e)))
      (e.Names ps p) (· = connecting ps done i (es ++ [e])) := by
  rw [connecting, resolveDependency_connect]
  refine ((judges_resolveDependency hnodup hp name e).bind (Q := True) fun d _ hd => ?_).congr
    (iff_of_eq (and_true _))
  have hlt : (done.map (targets ps)).length < (declared ps).modules.length := by
    simpa [modules_declared] using hlt
  have hadd := addDependency_connect (es.map (·.target ps i)) d hlt
  rw [List.length_map] at hadd
  rw [hadd]
  exact Judges.ok (by simp [connecting, hd])

lemma judges_connectModule (hnodup : (ps.map fun p => Name.normalize p.identity).Nodup)
    (hps : ∀ p ∈ ps, p.IsConsistent) {done : List (ModuleEntry × PackageId)} {m : ModuleEntry}
    (hp : ps[i]? = some p) (h : (moduleRows ps)[done.length]? = some (m, i)) :
    Judges (connectModule i (connect (declared ps) (done.map (targets ps))) m)
      (∀ e ∈ m.dependencies, e.Names ps p)
      (· = connect (declared ps) ((done ++ [(m, i)]).map (targets ps))) := by
  unfold connectModule
  have hfind := findModuleIn_moduleRows hps h
  rw [← findModuleIn_connect (done.map (targets ps))] at hfind
  refine Judges.known hfind ?_
  have hlt : done.length < (moduleRows ps).length := (List.getElem?_eq_some_iff.1 h).1
  have hfold := Judges.foldlM (s := connecting ps done i) (R := fun _ _ => True)
    (C := fun e => e.Names ps p)
    (f := fun g e => do step (g.addDependency done.length (← resolveDependency i g m.name e)))
    (fun es e => (judges_connectDependency hnodup hp hlt m.name es e).congr (by simp))
    [] m.dependencies
  have hnil : connecting ps done i [] = connect (declared ps) (done.map (targets ps)) :=
    connect_append_nil _
  have hall : connecting ps done i m.dependencies =
      connect (declared ps) ((done ++ [(m, i)]).map (targets ps)) := by
    simp [connecting, targets]
  rw [hnil, List.nil_append, hall] at hfold
  exact hfold.congr
    ⟨fun h => h.2.2, fun h => ⟨by simp, List.pairwise_of_forall fun _ _ => trivial, h⟩⟩

lemma judges_connectModules (hnodup : (ps.map fun p => Name.normalize p.identity).Nodup)
    (hps : ∀ p ∈ ps, p.IsConsistent) {done rest : List (ModuleEntry × PackageId)}
    (h : moduleRows ps = done ++ rest) :
    Judges (rest.foldlM (fun g r => connectModule r.2 g r.1)
        (connect (declared ps) (done.map (targets ps))))
      (∀ r ∈ rest, ∀ p, ps[r.2]? = some p → ∀ e ∈ r.1.dependencies, e.Names ps p)
      (· = connect (declared ps) ((moduleRows ps).map (targets ps))) := by
  induction rest generalizing done with
  | nil => exact (Judges.ok (by simp [h])).congr (by simp)
  | cons r rest ih =>
    have hr : (moduleRows ps)[done.length]? = some (r.1, r.2) := by simp [h]
    obtain ⟨p, -, hp, -⟩ := exists_of_moduleRows hr
    rw [List.foldlM_cons]
    refine ((judges_connectModule hnodup hps hp hr).bind (Q := ∀ r ∈ rest, ∀ p, ps[r.2]? = some p →
      ∀ e ∈ r.1.dependencies, e.Names ps p) fun g _ hg => ?_).congr ?_
    · subst hg
      exact ih (by simpa using h)
    · simp [hp]

lemma mem_moduleRows {r : ModuleEntry × PackageId} :
    r ∈ moduleRows ps ↔ ∃ p, ps[r.2]? = some p ∧ r.1 ∈ p.modules := by
  obtain ⟨m, i⟩ := r
  simp [moduleRows, List.mem_zipIdx_iff_getElem?, and_comm]

lemma foldlM_connectPackage (g : Graph) (ps : List PackageEntry) :
    ps.zipIdx.foldlM connectPackage g =
      (moduleRows ps).foldlM (fun g r => connectModule r.2 g r.1) g := by
  have hflat : ∀ (l : List (PackageEntry × PackageId)) (g : Graph), l.foldlM connectPackage g =
      (l.flatMap fun p => p.1.modules.map fun m => (m, p.2)).foldlM
        (fun g r => connectModule r.2 g r.1) g := by
    intro l
    induction l with
    | nil => exact fun _ => rfl
    | cons p l ih =>
      intro g
      rw [List.foldlM_cons, List.flatMap_cons, List.foldlM_append, List.foldlM_map]
      simp only [ih]
      rfl
  exact hflat _ g

end BuildPlanner.Document
