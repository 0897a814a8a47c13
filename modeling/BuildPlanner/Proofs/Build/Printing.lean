import BuildPlanner.Build.Printer
import BuildPlanner.Proofs.Build.Products
import BuildPlanner.Proofs.Graph.Lookup

/-!
Listings of plans end.

A listing looks up the modules and products that it names, and where binaries lie. All that a plan
holds, and all that its builds depend on, is in range of the graph that the plan was made of, and
the products of a plan are of kinds that have a binary.
-/

namespace BuildPlanner.Build

open BuildPlanner.Graph

variable {g : Graph} {target host : Parameters} {plan : Plan}

/-- What the listings of a plan look up is there. -/
structure Plan.IsPrintable (g : Graph) (plan : Plan) : Prop where
  module : ∀ m ∈ plan.modules, m.key.module < g.modules.length
  product : ∀ p ∈ plan.products, p.key.product < g.products.length
  parts : ∀ p ∈ plan.products, ∀ k ∈ p.parts, k.module < g.modules.length
  binary : ∀ p ∈ plan.products, ∃ path, p.binaryPath = .ok path

lemma isPrintable_of_layoutOf (hg : g.IsClosed) {r : Alias.Resolution}
    (h : layoutOf g target host r = .ok (.planned plan)) : plan.IsPrintable g where
  module m hm := by
    have hkey : m.key ∈ plan.modules.map (·.key) := List.mem_map_of_mem hm
    rw [(layoutOf_planned h).moduleKeys] at hkey
    exact lt_of_mem_reachedModules hkey
  product p hp := by
    have hreached := List.mem_of_mem_filter (mem_products_layoutOf h hp).1
    exact mem_productKeys.1 (List.mem_of_mem_filter hreached)
  parts p hp k hk := by
    rw [(mem_products_layoutOf h hp).2] at hk
    obtain ⟨m, hm, rfl⟩ := List.mem_map.1 hk
    exact hg.module_lt_of_mem_product hm
  binary p hp := by
    obtain ⟨-, -, -, hpath⟩ := exists_binaryName_layoutOf h hp
    exact ⟨_, hpath⟩

/-! ### Lines -/

lemma exists_printModule (hg : g.IsClosed) {m : PlannedModule}
    (hm : m.key.module < g.modules.length) : ∃ text, m.print g = .ok text := by
  simp [PlannedModule.print, module_of_lt hm, hg.qualifiedModule_eq hm]

lemma exists_printPart (hg : g.IsClosed) {k : ModuleKey} (hk : k.module < g.modules.length) :
    ∃ text, printPart g k = .ok text := by
  simp [printPart, hg.qualifiedModule_eq hk]

lemma exists_printProduct (hg : g.IsClosed) {p : PlannedProduct}
    (hp : p.key.product < g.products.length) (hparts : ∀ k ∈ p.parts, k.module < g.modules.length)
    (hbinary : ∃ path, p.binaryPath = .ok path) : ∃ text, p.print g = .ok text := by
  obtain ⟨parts, hparts⟩ : ∃ parts, p.parts.mapM (printPart g) = .ok parts :=
    Fault.exists_mapM_eq_ok.2 fun k hk => exists_printPart hg (hparts k hk)
  obtain ⟨path, hpath⟩ := hbinary
  simp [PlannedProduct.print, hparts, hg.qualifiedProduct_eq hp, hpath]

namespace Plan.IsPrintable

variable (h : plan.IsPrintable g)
include h

lemma exists_print (hg : g.IsClosed) : ∃ text, plan.print g = .ok text := by
  obtain ⟨modules, hmodules⟩ : ∃ ls, plan.modules.mapM (·.print g) = .ok ls :=
    Fault.exists_mapM_eq_ok.2 fun m hm => exists_printModule hg (h.module m hm)
  obtain ⟨products, hproducts⟩ : ∃ ls, plan.products.mapM (·.print g) = .ok ls :=
    Fault.exists_mapM_eq_ok.2 fun p hp =>
      exists_printProduct hg (h.product p hp) (h.parts p hp) (h.binary p hp)
  simp [Plan.print, hmodules, hproducts]

lemma exists_printBinary (k : ProductKey) : ∃ text, printBinary (plan.product? k) = .ok text := by
  cases hfind : plan.product? k with
  | none => exact ⟨"", rfl⟩
  | some p =>
    obtain ⟨path, hpath⟩ := h.binary p (List.mem_of_find?_eq_some hfind)
    simp [printBinary, hpath]

lemma exists_printDependency (hg : g.IsClosed) {x : PlannedDependency} (hx : x.node ∈ g.nodes)
    (hof : x.IsOf plan) : ∃ text, x.print g = .ok text := by
  cases x with
  | product k p =>
    obtain rfl : p = plan.product? k := hof
    obtain ⟨binary, hbinary⟩ := h.exists_printBinary k
    simp [PlannedDependency.print, hg.qualifiedProduct_eq (product_mem_nodes.1 hx), hbinary]
  | module m => simp [PlannedDependency.print, hg.qualifiedModule_eq (module_mem_nodes.1 hx)]

lemma exists_printDependencies (hg : g.IsClosed) (hplan : plan.Covers g) {m : PlannedModule}
    (hm : m ∈ plan.modules) : ∃ text, plan.printDependencies g m = .ok text := by
  obtain ⟨ds, walked, hds, hwalked, hlisted, hof⟩ :=
    exists_recursiveDependencies hg hplan (hplan.mem_reachedModules hm)
  have hnodes : ∀ x ∈ ds, x.node ∈ g.nodes := by
    intro x hx
    have hreached := (hwalked.exists_node_iff hlisted).1 ⟨x, hx, rfl⟩
    obtain ⟨y, -, hstep⟩ := Relation.TransGen.tail'_iff.1 hreached
    exact hg.successors_mem_nodes hstep
  obtain ⟨lines, hlines⟩ : ∃ ls, ds.mapM (PlannedDependency.print g) = .ok ls :=
    Fault.exists_mapM_eq_ok.2 fun x hx => h.exists_printDependency hg (hnodes x hx) (hof x hx)
  simp [Plan.printDependencies, hds, hlines, hg.qualifiedModule_eq (h.module m hm)]

end Plan.IsPrintable

/-- **All listings of a plan end.** The plan, the walk through it and the dependencies of each of
its builds are printed without a fault. -/
theorem exists_listings (hg : g.IsClosed) {engine : Diagnostic.Engine} {a : Attempt}
    (h : create g target host engine = .ok a) (hplan : a.plan = some plan) :
    (∃ text, plan.print g = .ok text) ∧ (∃ text, plan.printVisits g = .ok text) ∧
      ∀ m ∈ plan.modules, ∃ text, plan.printDependencies g m = .ok text := by
  have hcovers := covers_of_create hg h hplan
  obtain ⟨o, -, -, -, -, hlayout⟩ := create_eq_plan_iff.1 ⟨a, h, hplan⟩
  have hprintable := isPrintable_of_layoutOf hg hlayout
  obtain ⟨vs, hvs, -⟩ := exists_visits hg hcovers
  refine ⟨hprintable.exists_print hg, ?_, fun m hm =>
    hprintable.exists_printDependencies hg hcovers hm⟩
  simp [Plan.printVisits, hvs]

end BuildPlanner.Build
