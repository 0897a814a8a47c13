import BuildPlanner.Proofs.Build.Closure
import BuildPlanner.Proofs.Build.Visits

/-!
Walks through the builds of a plan whose graph has not changed.

A walk never leaves the plan, since the destinations of what a build depends on are found by the
rule that decided what to build, and it never comes to a build that is on its path. So it ends
without a fault, and it has been through all that its builds lead to.
-/

namespace BuildPlanner.Build

open BuildPlanner.Graph
open Relation (ReflTransGen reflTransGen_iff_eq_or_transGen)

variable {g : Graph} {target host : Parameters} {plan : Plan}

lemma ok_mem_slots (hg : g.IsClosed) {k l : ModuleKey} :
    .ok l ∈ slots g k ↔ l ∈ g.childKeys k := by
  simp [hg.slots_eq]

lemma of_directDependency {d : Destination} {x : Dependency} {y : PlannedDependency}
    (h : plan.directDependency g d x = .ok y) : y.node = g.dependencyNode d x ∧ y.IsOf plan := by
  cases x with
  | module m =>
    obtain ⟨k, hk, h⟩ := Fault.bind_eq_ok.1 h
    obtain ⟨-, -, hk⟩ := Fault.bind_eq_ok.1 hk
    obtain rfl := Fault.pure_eq_ok.1 hk
    obtain ⟨b, hb, h⟩ := Fault.bind_eq_ok.1 h
    obtain rfl := Fault.pure_eq_ok.1 h
    have hfound : plan.module? (g.moduleKey d m) = some b := by
      unfold Plan.planned at hb
      split at hb
      · next hfound => rw [hfound, Except.ok.inj hb]
      · cases hb
    have hkey := Plan.key_of_module? hfound
    exact ⟨congrArg Node.module hkey, by rwa [← hkey] at hfound⟩
  | product p aliases =>
    obtain ⟨k, hk, h⟩ := Fault.bind_eq_ok.1 h
    obtain ⟨-, -, hk⟩ := Fault.bind_eq_ok.1 hk
    obtain rfl := Fault.pure_eq_ok.1 hk
    obtain rfl := Fault.pure_eq_ok.1 h
    exact ⟨rfl, rfl⟩

lemma of_mapM_directDependency {d : Destination} {xs : List Dependency}
    {ds : List PlannedDependency} (h : xs.mapM (plan.directDependency g d) = .ok ds) :
    ds.map (·.node) = xs.map (g.dependencyNode d) ∧ ∀ y ∈ ds, y.IsOf plan := by
  refine ⟨?_, fun y hy => ?_⟩
  · rw [← List.forall₂_eq_eq_eq, List.forall₂_map_left_iff, List.forall₂_map_right_iff]
    exact ((Fault.mapM_eq_ok_iff.1 h).imp fun _ _ hxy => (of_directDependency hxy).1).flip
  · obtain ⟨x, -, hxy⟩ := (Fault.mem_of_mapM_eq_ok h).1 hy
    exact (of_directDependency hxy).2

/-- The list of the direct dependencies of a planned build is that of the declared ones. -/
lemma exists_directDependencies (hg : g.IsClosed) (hplan : plan.Covers g) {k : ModuleKey}
    (hk : k ∈ g.reachedModules) : ∃ ds, plan.directDependencies g k = .ok ds ∧
      ds.map (·.node) = g.successors (.module k) ∧ ∀ y ∈ ds, y.IsOf plan := by
  obtain ⟨ds, hds⟩ : ∃ ds, (g.moduleAt k.module).dependencies.mapM
      (plan.directDependency g k.destination) = .ok ds := by
    refine Fault.exists_mapM_eq_ok.2 fun x hx => ?_
    have hdangling := hg.dependency hx
    cases x with
    | module m =>
      have hreached : g.moduleKey k.destination m ∈ g.reachedModules :=
        hg.mem_reachedModules_of_child hk (List.mem_flatMap.2 ⟨_, hx, List.mem_singleton.2 rfl⟩)
      obtain ⟨x, hx⟩ := Option.isSome_iff_exists.1 ((hplan.planned _).2 hreached)
      refine ⟨.module x, ?_⟩
      simp [Plan.directDependency, moduleKey?_of_lt (danglingFault?_module.1 hdangling),
        Plan.planned, hx]
    | product p aliases =>
      let l := g.productKey k.destination p
      refine ⟨.product l (plan.product? l), ?_⟩
      simp [l, Plan.directDependency, productKey?_of_lt (danglingFault?_product.1 hdangling)]
  refine ⟨ds, ?_, of_mapM_directDependency hds⟩
  rw [Plan.directDependencies, module_of_lt (lt_of_mem_reachedModules hk)]
  exact hds

lemma isSome_product?_layoutOf {r : Alias.Resolution}
    (h : layoutOf g target host r = .ok (.planned plan)) {k : ProductKey} :
    (plan.product? k).isSome = true ↔ k ∈ linkedProducts g := by
  rw [product?_layoutOf h]
  split <;> simp [*]

lemma hasBinary_iff {kind : ProductKind} :
    kind.hasBinary = true ↔ kind ≠ .automaticLibrary ∧ kind ≠ .plugin := by
  cases kind <;> simp [ProductKind.hasBinary]

/-- **Walks never leave a plan and never meet a cycle.** The walk from the root modules ends, and
has visited all builds that the roots lead to. For each build of the plan, its child builds are in
the plan, and the products that it depends on have a build in the plan unless they are automatic
libraries or plugins. The list of its direct dependencies ends and has those that its module
declares, in order, with what the plan has for them; the list of all its dependencies ends and has
all builds that the build leads to. -/
theorem walks_complete (hg : g.IsClosed) {engine : Diagnostic.Engine} {a : Attempt} {plan : Plan}
    (h : create g target host engine = .ok a) (hplan : a.plan = some plan) :
    (∃ vs, plan.visits g = .ok vs ∧ ∀ k, (∃ v ∈ vs, v.key = k) ↔
      ∃ r ∈ plan.roots, ReflTransGen (fun k l => .ok l ∈ slots g k) r k) ∧
    ∀ m ∈ plan.modules,
      (∀ slot ∈ slots g m.key, ∃ k, slot = .ok k ∧ (plan.module? k).isSome = true) ∧
      (∀ p aliases, .product p aliases ∈ (g.moduleAt m.key.module).dependencies →
        ∃ k, g.productKey? m.key.destination p = .ok k ∧ ((plan.product? k).isSome = true ↔
          (g.productAt p).kind ≠ .automaticLibrary ∧ (g.productAt p).kind ≠ .plugin)) ∧
      (∃ ds, plan.directDependencies g m.key = .ok ds ∧
        ds.map (·.node) = g.successors (.module m.key) ∧ ∀ x ∈ ds, x.IsOf plan) ∧
      ∃ ds, plan.recursiveDependencies g m.key = .ok ds ∧
        ∀ k, (k = m.key ∨ ∃ x, .module x ∈ ds ∧ x.key = k) ↔
          ReflTransGen (fun k l => .ok l ∈ slots g k) m.key k := by
  have hcovers := covers_of_create hg h hplan
  obtain ⟨o, -, -, -, -, hlayout⟩ := create_eq_plan_iff.1 ⟨a, h, hplan⟩
  simp only [ok_mem_slots hg]
  refine ⟨?_, fun m hm => ?_⟩
  · obtain ⟨vs, hvs, hunfolds⟩ := exists_visits hg hcovers
    exact ⟨vs, hvs, hunfolds.mem_iff⟩
  have hreached : m.key ∈ g.reachedModules := hcovers.mem_reachedModules hm
  refine ⟨fun slot hslot => ?_, fun p aliases hp => ?_,
    exists_directDependencies hg hcovers hreached, ?_⟩
  · rw [hg.slots_eq] at hslot
    obtain ⟨k, hk, rfl⟩ := List.mem_map.1 hslot
    exact ⟨k, rfl, (hcovers.planned k).2 (hg.mem_reachedModules_of_child hreached hk)⟩
  · refine ⟨_, productKey?_of_lt (hg.product_lt hp) _, ?_⟩
    have hproduct := hg.mem_reachedProducts_of_dependency hreached hp
    rw [isSome_product?_layoutOf hlayout, ← hasBinary_iff, linkedProducts, List.mem_filter,
      and_iff_right hproduct]
    rfl
  · obtain ⟨ds, walked, hds, hwalked, hlisted, -⟩ :=
      exists_recursiveDependencies hg hcovers hreached
    refine ⟨ds, hds, fun k => ?_⟩
    rw [hwalked.exists_module_iff hlisted, reflTransGen_iff_eq_or_transGen]

/-- The library is visited in the builds for both destinations. The application depends on the macro
as it is built for the host, and on the library's product for the target. -/
theorem walks_complete_vended : vended.IsClosed ∧ ∃ a plan vs ds,
    create vended (.debug .target) (.debug .host) {} = .ok a ∧ a.plan = some plan ∧
      plan.visits vended = .ok vs ∧ (∃ v ∈ vs, v.key = ⟨2, .target⟩) ∧
        (∃ v ∈ vs, v.key = ⟨2, .host⟩) ∧ plan.directDependencies vended ⟨0, .target⟩ = .ok ds ∧
          ds.map (·.node) = [.module ⟨1, .host⟩, .product ⟨0, .target⟩] := by
  obtain ⟨hg, a, plan, hcreate, hplan, hroots⟩ := exists_plan_vended
  obtain ⟨⟨vs, hvs, hvisited⟩, hbuilds⟩ := walks_complete hg hcreate hplan
  obtain ⟨app, happ, hkey⟩ : ∃ m ∈ plan.modules, m.key = ⟨0, .target⟩ :=
    List.mem_map.1 (Plan.isSome_module?_iff.1
      (((covers_of_create hg hcreate hplan).planned _).2 (by decide)))
  obtain ⟨-, -, ⟨ds, hds, hnodes, -⟩, -⟩ := hbuilds app happ
  rw [hkey] at hds hnodes
  refine ⟨hg, a, plan, vs, ds, hcreate, hplan, hvs, (hvisited _).2 ?_, (hvisited _).2 ?_, hds,
    hnodes.trans (by decide)⟩
  · refine ⟨⟨0, .target⟩, by simp [hroots], .single ((ok_mem_slots hg).2 ?_)⟩
    decide
  · refine ⟨⟨1, .host⟩, by simp [hroots], .single ((ok_mem_slots hg).2 ?_)⟩
    decide

end BuildPlanner.Build
