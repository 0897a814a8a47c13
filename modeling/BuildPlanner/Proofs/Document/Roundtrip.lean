import BuildPlanner.Proofs.Document.Writing

/-!
Reading a document, writing its graph and reading that again.

The written document is the canonical form of the one that was read (`ofGraph_graph`), and what is
read again is the canonical form with the tools-versions restated (`decode?_encode`). Neither step
changes a name that is looked up, so both documents describe the same graph up to the spelling of
tools-versions.
-/

namespace BuildPlanner

def Package.restate (x : Package) : Package :=
  { x with tools := if x.tools.same .current then .current else x.tools }

def Graph.restate (g : Graph) : Graph := { g with packages := g.packages.map Package.restate }

/-! ### Sources -/

namespace SourceSet

lemma contains_insert (s : SourceSet) (k j : SourceKind) :
    (s.insert k).contains j = (decide (j = k) || s.contains j) := by
  cases k <;> cases j <;> rfl

lemma contains_ofList (ks : List SourceKind) (j : SourceKind) :
    (ofList ks).contains j = decide (j ∈ ks) := by
  have hfold : ∀ s : SourceSet,
      (ks.foldl insert s).contains j = (decide (j ∈ ks) || s.contains j) := by
    induction ks with
    | nil => simp
    | cons k ks ih =>
      intro s
      rw [List.foldl_cons, ih, contains_insert]
      simp [Bool.or_left_comm, Bool.or_assoc]
  have hempty : contains {} j = false := by cases j <;> rfl
  rw [ofList, hfold, hempty, Bool.or_false]

lemma mem_toList {s : SourceSet} {j : SourceKind} : j ∈ s.toList ↔ s.contains j = true := by
  have hall : j ∈ SourceKind.all := by cases j <;> decide
  simp [toList, hall]

lemma ext_contains {s t : SourceSet} (h : ∀ j, s.contains j = t.contains j) : s = t := by
  obtain ⟨_, _, _, _, _⟩ := s
  obtain ⟨_, _, _, _, _⟩ := t
  exact mk.injEq .. ▸ ⟨h .swift, h .c, h .cxx, h .objc, h .assembly⟩

lemma ofList_toList (s : SourceSet) : ofList s.toList = s := by
  refine ext_contains fun j => ?_
  rw [contains_ofList]
  cases h : s.contains j <;> simp [mem_toList, h]

end SourceSet

namespace Document

/-! ### Changes that keep names -/

/-- A change of packages that no look-up notices. -/
structure KeepsNames (f : PackageEntry → PackageEntry) : Prop where
  identity (p : PackageEntry) : (f p).identity = p.identity
  modules (p : PackageEntry) : (f p).modules.map (·.name) = p.modules.map (·.name)
  products (p : PackageEntry) : (f p).products = p.products

namespace KeepsNames

variable {f : PackageEntry → PackageEntry} {ps : List PackageEntry} {p : PackageEntry}
  {i : PackageId}

lemma moduleStart (hf : KeepsNames f) : moduleStart (ps.map f) i = moduleStart ps i := by
  have hlength : ∀ p, (f p).modules.length = p.modules.length := fun p => by
    simpa using congrArg List.length (hf.modules p)
  simp [Document.moduleStart, ← List.map_take, Function.comp_def, hlength]

lemma productStart (hf : KeepsNames f) : productStart (ps.map f) i = productStart ps i := by
  simp [Document.productStart, ← List.map_take, Function.comp_def, hf.products]

lemma findIdx_modules (hf : KeepsNames f) (p : PackageEntry) (name : String) :
    (f p).modules.findIdx (·.name = name) = p.modules.findIdx (·.name = name) := by
  have hmap : ∀ ms : List ModuleEntry,
      ms.findIdx (·.name = name) = (ms.map (·.name)).findIdx (· = name) := fun ms => by
    rw [List.findIdx_map]
    rfl
  rw [hmap, hf.modules, ← hmap]

lemma modulePosition (hf : KeepsNames f) (name : String) :
    modulePosition (ps.map f) i name = modulePosition ps i name := by
  rw [Document.modulePosition, Document.modulePosition, hf.moduleStart, List.getElem?_map]
  cases ps[i]? with
  | none => rfl
  | some p => exact congrArg (Document.moduleStart ps i + ·) (hf.findIdx_modules p name)

lemma productPosition (hf : KeepsNames f) (name : String) :
    productPosition (ps.map f) i name = productPosition ps i name := by
  rw [Document.productPosition, Document.productPosition, hf.productStart, List.getElem?_map]
  cases ps[i]? with
  | none => rfl
  | some p => simp [hf.products]

lemma target (hf : KeepsNames f) (e : DependencyEntry) : e.target (ps.map f) i = e.target ps i := by
  have hvendor : e.vendor (ps.map f) i = e.vendor ps i := by
    rw [DependencyEntry.vendor, DependencyEntry.vendor, List.findIdx_map]
    simp [Function.comp_def, hf.identity]
  simp only [DependencyEntry.target, hf.modulePosition, hf.productPosition, hvendor]

lemma exists_module (hf : KeepsNames f) (name : String) :
    (∃ m ∈ (f p).modules, m.name = name) ↔ ∃ m ∈ p.modules, m.name = name := by
  have h := congrArg (name ∈ ·) (hf.modules p)
  simpa using h

lemma isConsistent (hf : KeepsNames f) (hp : p.IsConsistent) : (f p).IsConsistent where
  modules := by rw [hf.modules]; exact hp.modules
  products := by rw [hf.products]; exact hp.products
  contents q hq name hname := by
    rw [hf.products] at hq
    exact (hf.exists_module name).2 (hp.contents q hq name hname)

lemma names (hf : KeepsNames f) {e : DependencyEntry} (he : e.Names ps p) :
    e.Names (ps.map f) (f p) := by
  refine ⟨he.single, fun hm => ?_, fun hq => ?_⟩
  · obtain ⟨hpackage, haliases, hname⟩ := he.module hm
    exact ⟨hpackage, haliases, (hf.exists_module e.module).2 hname⟩
  · obtain ⟨x, hx, hname⟩ := he.product hq
    refine ⟨f x, ?_, by rwa [hf.products]⟩
    unfold DependencyEntry.Vendor at hx ⊢
    split at hx
    · next hown => rw [if_pos hown, hx]
    · next hown =>
      rw [if_neg hown, hf.identity]
      exact ⟨List.mem_map_of_mem hx.1, hx.2⟩

lemma wellFormed {d : Document} (hf : KeepsNames f) (hd : d.WellFormed)
    (hresolved : ∀ p ∈ d.packages, ∀ m ∈ (f p).modules, ∀ e ∈ m.dependencies,
      e.Names d.packages p) : (Document.mk (d.packages.map f)).WellFormed where
  identified p hp := by
    obtain ⟨x, hx, rfl⟩ := List.mem_map.1 hp
    rw [hf.identity]
    exact hd.identified x hx
  distinct := by
    have hidentities : (d.packages.map f).map (fun p => Name.normalize p.identity) =
        d.packages.map fun p => Name.normalize p.identity := by
      simp [Function.comp_def, hf.identity]
    rw [hidentities]
    exact hd.distinct
  consistent p hp := by
    obtain ⟨x, hx, rfl⟩ := List.mem_map.1 hp
    exact hf.isConsistent (hd.consistent x hx)
  resolved p hp m hm e he := by
    obtain ⟨x, hx, rfl⟩ := List.mem_map.1 hp
    exact hf.names (hresolved x hx m hm e he)

end KeepsNames

/-! ### The canonical form -/

lemma keepsNames_canonical (ps : List PackageEntry) : KeepsNames (·.canonical ps) where
  identity _ := rfl
  modules p := by simp [PackageEntry.canonical, ModuleEntry.canonical, Function.comp_def]
  products _ := rfl

variable {d : Document} {p : PackageEntry} {i : PackageId}

lemma DependencyEntry.Vendor.canonical (hd : d.WellFormed) (hp : d.packages[i]? = some p)
    {e : DependencyEntry} (hm : e.module = "") {x : PackageEntry} (hx : e.Vendor d.packages p x) :
    (e.canonical d.packages p).Vendor d.packages p x := by
  have hmem : x ∈ d.packages := List.mem_of_getElem? (hx.exists_getElem? hd.distinct hp)
  have hpackage : (e.canonical d.packages p).package = x.identity := by
    rw [DependencyEntry.canonical, if_neg (not_not.2 hm)]
    exact hx.vendorIdentity hd.distinct
  rw [DependencyEntry.Vendor, hpackage, if_neg (hd.identified x hmem)]
  exact ⟨hmem, rfl⟩

lemma DependencyEntry.Names.canonical (hd : d.WellFormed) (hp : d.packages[i]? = some p)
    {e : DependencyEntry} (he : e.Names d.packages p) :
    (e.canonical d.packages p).Names d.packages p := by
  by_cases hm : e.module = ""
  · have hfields : (e.canonical d.packages p).module = e.module ∧
        (e.canonical d.packages p).product = e.product := by
      simp [DependencyEntry.canonical, hm]
    refine ⟨by rw [hfields.1, hfields.2]; exact he.single,
      fun hne => absurd (hfields.1.trans hm) hne, fun hq => ?_⟩
    rw [hfields.2] at hq ⊢
    obtain ⟨x, hx, hname⟩ := he.product hq
    exact ⟨x, hx.canonical hd hp hm, hname⟩
  · rwa [DependencyEntry.canonical, if_pos hm]

lemma target_canonical (hd : d.WellFormed) (hp : d.packages[i]? = some p) {e : DependencyEntry}
    (he : e.Names d.packages p) :
    (e.canonical d.packages p).target d.packages i = e.target d.packages i := by
  by_cases hm : e.module = ""
  · have hq : e.product ≠ "" := fun hq => he.single (by simp [hm, hq])
    obtain ⟨x, hx, -⟩ := he.product hq
    have hold := hx.exists_getElem? hd.distinct hp
    have hnew := (hx.canonical hd hp hm).exists_getElem? hd.distinct hp
    have hvendor : (e.canonical d.packages p).vendor d.packages i = e.vendor d.packages i :=
      (List.getElem?_inj (List.getElem?_eq_some_iff.1 hnew).1 hd.distinct.of_map).1
        (hnew.trans hold.symm)
    rw [DependencyEntry.target, hvendor]
    simp [DependencyEntry.target, DependencyEntry.canonical, hm]
  · rw [DependencyEntry.canonical, if_pos hm]

lemma toList_sourceSet_ne_nil (m : ModuleEntry) : m.sourceSet.toList ≠ [] := by
  have hmem : ∃ k, k ∈ m.sourceSet.toList := by
    unfold ModuleEntry.sourceSet
    cases hm : m.sources with
    | nil => exact ⟨.swift, by decide⟩
    | cons k ks => exact ⟨k, by simp [SourceSet.mem_toList, SourceSet.contains_ofList]⟩
  obtain ⟨k, hk⟩ := hmem
  exact List.ne_nil_of_mem hk

lemma row_canonical (ps : List PackageEntry) (p : PackageEntry) (m : ModuleEntry) :
    (m.canonical ps p).row i = m.row i := by
  have hsources : (m.canonical ps p).sourceSet = m.sourceSet := by
    have hne : m.sourceSet.toList.isEmpty = false := by
      simpa using toList_sourceSet_ne_nil m
    rw [ModuleEntry.sourceSet, ModuleEntry.canonical, hne, if_neg (by simp),
      SourceSet.ofList_toList]
  rw [ModuleEntry.row, hsources]
  rfl

lemma declare_canonical (ps : List PackageEntry) (g : Graph) (p : PackageEntry) :
    declare g (p.canonical ps) = declare g p := by
  have hmodules : ∀ i, (p.canonical ps).modules.map (·.row i) = p.modules.map (·.row i) := by
    intro i
    rw [PackageEntry.canonical, List.map_map]
    exact List.map_congr_left fun m _ => row_canonical ps p m
  have hproducts : ∀ q : ProductEntry,
      q.row g.packages.length g.modules.length (p.canonical ps).modules =
        q.row g.packages.length g.modules.length p.modules := by
    intro q
    simp only [ProductEntry.row, (keepsNames_canonical ps).findIdx_modules]
  have hpackage : (p.canonical ps).row g.modules.length g.products.length =
      p.row g.modules.length g.products.length := by
    simp [PackageEntry.row, PackageEntry.canonical]
  rw [declare, declare, hmodules, hpackage]
  simp only [hproducts]
  rfl

lemma wellFormed_canonical (hd : d.WellFormed) : d.canonical.WellFormed := by
  refine (keepsNames_canonical d.packages).wellFormed hd fun p hp m hm e he => ?_
  obtain ⟨i, hi⟩ := List.mem_iff_getElem?.1 hp
  obtain ⟨m', hm', rfl⟩ := List.mem_map.1 hm
  obtain ⟨e', he', rfl⟩ := List.mem_map.1 he
  exact (hd.resolved p hp m' hm' e' he').canonical hd hi

lemma targets_canonical (hd : d.WellFormed) :
    (moduleRows d.canonical.packages).map (targets d.canonical.packages) =
      (moduleRows d.packages).map (targets d.packages) := by
  have htargets : targets d.canonical.packages = targets d.packages := by
    funext r
    simp only [targets, canonical, (keepsNames_canonical d.packages).target]
  rw [htargets, canonical, moduleRows, moduleRows, List.zipIdx_map, List.flatMap_map,
    List.map_flatMap, List.map_flatMap]
  refine List.flatMap_congr fun r hr => ?_
  rw [List.mem_zipIdx_iff_getElem?] at hr
  simp only [PackageEntry.canonical, Prod.map_fst, Prod.map_snd, id_eq, List.map_map]
  refine List.map_congr_left fun m hm => ?_
  simp only [Function.comp_apply, targets, ModuleEntry.canonical, List.map_map]
  refine List.map_congr_left fun e he => ?_
  have hnames := hd.resolved r.1 (List.mem_of_getElem? hr) m hm e he
  exact target_canonical hd hr hnames

/-- **The canonical form describes the same graph.** -/
theorem graph_canonical (hd : d.WellFormed) : d.canonical.graph = d.graph := by
  have hdeclared : declared d.canonical.packages = declared d.packages := by
    rw [canonical, declared, List.foldl_map]
    simp only [declare_canonical]
    rfl
  rw [graph, graph, hdeclared, targets_canonical hd]

/-! ### Restated tools-versions -/

lemma keepsNames_restate : KeepsNames PackageEntry.restate where
  identity _ := rfl
  modules _ := rfl
  products _ := rfl

lemma wellFormed_restate (hd : d.WellFormed) : d.restate.WellFormed :=
  keepsNames_restate.wellFormed hd hd.resolved

lemma graph_restate (d : Document) : d.restate.graph = d.graph.restate := by
  have hdeclare : ∀ (g : Graph) (p : PackageEntry),
      declare g.restate p.restate = (declare g p).restate := by
    intro g p
    simp [declare, Graph.restate, PackageEntry.row, PackageEntry.restate, Package.restate]
  have hdeclared : declared d.restate.packages = (declared d.packages).restate := by
    have hfold : d.packages.foldl (fun g p => declare g p.restate) (Graph.restate {}) =
        (d.packages.foldl declare {}).restate := List.foldl_hom Graph.restate hdeclare
    rw [restate, declared, declared, List.foldl_map]
    exact hfold
  have hrows : moduleRows d.restate.packages = moduleRows d.packages := by
    rw [restate, moduleRows, moduleRows, List.zipIdx_map, List.flatMap_map]
    rfl
  have htargets : targets d.restate.packages = targets d.packages := by
    funext r
    simp only [targets, restate, keepsNames_restate.target]
  rw [graph, graph, hdeclared, hrows, htargets]
  rfl

lemma canonical_restate (d : Document) : d.restate.canonical = d.canonical.restate := by
  have hvendor : ∀ (p : PackageEntry) (e : DependencyEntry),
      e.canonical (d.packages.map PackageEntry.restate) p.restate = e.canonical d.packages p := by
    intro p e
    simp [DependencyEntry.canonical, DependencyEntry.vendorIdentity, List.find?_map,
      Function.comp_def, PackageEntry.restate]
    rfl
  have hpackage : ∀ p : PackageEntry,
      p.restate.canonical (d.packages.map PackageEntry.restate) =
        (p.canonical d.packages).restate := by
    intro p
    simp only [PackageEntry.canonical, ModuleEntry.canonical, hvendor]
    rfl
  simp only [restate, canonical, List.map_map, Function.comp_def, hpackage]

/-! ### The round trip -/

/-- Two graphs that differ at most in zeros at the end of tools-versions. -/
structure Alike (g g' : Graph) : Prop where
  packages : List.Forall₂ (fun x x' => x.tools.same x'.tools ∧ { x' with tools := x.tools } = x)
    g.packages g'.packages
  modules : g'.modules = g.modules
  products : g'.products = g.products

lemma alike_restate (g : Graph) : Alike g g.restate := by
  refine ⟨?_, rfl, rfl⟩
  rw [Graph.restate, List.forall₂_map_right_iff, List.forall₂_same]
  intro x _
  cases h : x.tools.same .current with
  | false => simp [Package.restate, h, Version.same_refl]
  | true => simp [Package.restate, h]

/-- **Round trip.** The graph of a document that is read and accepted is written as a document that
is read and accepted again, describes the same graph and is written the same way. -/
theorem rereads (t : Data) (d : Document) (g : Graph) (ht : decode? t = some d)
    (hg : d.toGraph = .ok g) :
    ∃ written reread g', ofGraph g = .ok written ∧ decode? written.encode = some reread ∧
      reread.toGraph = .ok g' ∧ Alike g g' ∧
      ∃ again, ofGraph g' = .ok again ∧ again.encode = written.encode := by
  obtain ⟨hd, rfl⟩ := (judges_toGraph d).of_ok hg
  have hwritable : d.canonical.IsWritable := by
    intro p hp
    obtain ⟨x, hx, rfl⟩ := List.mem_map.1 hp
    exact isWritable_of_decode? ht x hx
  have hcanonical := wellFormed_canonical hd
  obtain ⟨g', hg'⟩ := (judges_toGraph d.canonical.restate).exists_ok_iff.2
    (wellFormed_restate hcanonical)
  obtain ⟨-, rfl⟩ := (judges_toGraph d.canonical.restate).of_ok hg'
  refine ⟨_, _, _, ofGraph_graph hd, decode?_encode hwritable, hg', ?_, ?_⟩
  · rw [graph_restate, graph_canonical hd]
    exact alike_restate _
  · rw [graph_restate, graph_canonical hd, ← graph_restate]
    refine ⟨_, ofGraph_graph (wellFormed_restate hd), ?_⟩
    rw [canonical_restate, encode_restate]

/-- A document that spells a tools-version, an identity and a dependency in its own way. -/
def spelled : Data :=
  .record [("packages", .list [
    .record [("identity", .text "App"), ("root", .flag true), ("tools-version", .text "6.0.0"),
      ("modules", .list [
        .record [("name", .text "App"), ("dependencies", .list [
          .record [("product", .text "Log"), ("package", .text "LIB "),
            ("aliases", .record [("Log", .text "LibLog")])],
          .record [("product", .text "Own")]])],
        .record [("name", .text "Own"), ("sources", .list [.text "c", .text "swift", .text "c"])]]),
      ("products", .list [.record [("name", .text "Own"), ("modules", .list [.text "Own"])]])],
    .record [("identity", .text " Lib"), ("tools-version", .text "5.9"),
      ("modules", .list [.record [("name", .text "Log")]]),
      ("products", .list [.record [("name", .text "Log"), ("modules", .list [.text "Log"])]])]])]

theorem rereads_spelled :
    ∃ d g, decode? spelled = some d ∧ d.toGraph = .ok g ∧
      ∃ written reread g', ofGraph g = .ok written ∧ decode? written.encode = some reread ∧
        reread.toGraph = .ok g' ∧ Alike g g' ∧
        ∃ again, ofGraph g' = .ok again ∧ again.encode = written.encode := by
  have hread : ((decode? spelled).bind fun d => d.toGraph.toOption).isSome = true := by
    decide +kernel
  obtain ⟨g, hread⟩ := Option.isSome_iff_exists.1 hread
  obtain ⟨d, hd, hg⟩ := Option.bind_eq_some_iff.1 hread
  have hg : d.toGraph = .ok g := Fault.toOption_eq_some.1 hg
  exact ⟨d, g, hd, hg, rereads spelled d g hd hg⟩

end Document

end BuildPlanner
