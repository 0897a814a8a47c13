import BuildPlanner.Proofs.Alias.Reordering
import BuildPlanner.Proofs.Build.Layout
import BuildPlanner.Proofs.Build.Reach
import BuildPlanner.Proofs.Document.Assembled

/-!
Declaration order does not matter.

What is built for which destination follows from the references between modules and products, and
its names from a resolution, so both are the same for the modules and products at their new
positions.
-/

namespace BuildPlanner.Reordering

open Build
open Relation (ReflTransGen)

variable {g g' : Graph} (σ : Reordering g g')

/-! ### Destinations -/

lemma runsAtCompileTime (d : Dependency) :
    g'.runsAtCompileTime (σ.dependency d) = g.runsAtCompileTime d := by
  cases d <;> simp [Graph.runsAtCompileTime]

lemma hasCompileTimeDependency (m : ModuleId) :
    g'.hasCompileTimeDependency (σ.module m) = g.hasCompileTimeDependency m := by
  rw [Bool.eq_iff_iff, Graph.hasCompileTimeDependency, Graph.hasCompileTimeDependency,
    List.any_eq_true, List.any_eq_true, σ.exists_dependencies]
  simp only [σ.runsAtCompileTime]

lemma isHostModule (m : ModuleId) : g'.isHostModule (σ.module m) = g.isHostModule m := by
  rw [Graph.isHostModule, Graph.isHostModule, σ.kind_module, σ.hasCompileTimeDependency]

lemma isHostProduct (p : ProductId) : g'.isHostProduct (σ.product p) = g.isHostProduct p := by
  have hany : (g'.productAt (σ.product p)).modules.any g'.hasCompileTimeDependency =
      (g.productAt p).modules.any g.hasCompileTimeDependency := by
    rw [Bool.eq_iff_iff, List.any_eq_true, List.any_eq_true, σ.exists_members]
    simp only [σ.hasCompileTimeDependency]
  rw [Graph.isHostProduct, Graph.isHostProduct, σ.kind_product, hany]

/-! ### Builds -/

/-- The build of what a module or product has become. -/
def node : Node ≃ Node where
  toFun
    | .module k => .module ⟨σ.module k.module, k.destination⟩
    | .product k => .product ⟨σ.product k.product, k.destination⟩
  invFun
    | .module k => .module ⟨σ.module.symm k.module, k.destination⟩
    | .product k => .product ⟨σ.product.symm k.product, k.destination⟩
  left_inv x := by cases x <;> simp
  right_inv x := by cases x <;> simp

lemma node_dependencyNode (d : Destination) (x : Dependency) :
    σ.node (g.dependencyNode d x) = g'.dependencyNode d (σ.dependency x) := by
  cases x with
  | module n => simp [node, Graph.dependencyNode, Graph.moduleKey, σ.isHostModule]
  | product p rs => simp [node, Graph.dependencyNode, Graph.productKey, σ.isHostProduct]

lemma mem_successors {x y : Node} : σ.node y ∈ g'.successors (σ.node x) ↔ y ∈ g.successors x := by
  cases x with
  | module k =>
    change σ.node y ∈ (g'.moduleAt (σ.module k.module)).dependencies.map
      (g'.dependencyNode k.destination) ↔ _
    rw [List.mem_map, σ.exists_dependencies, Graph.successors, List.mem_map]
    simp only [← σ.node_dependencyNode, σ.node.injective.eq_iff]
  | product k =>
    have hkey : ∀ m, Node.module (g'.moduleKey k.destination (σ.module m)) =
        σ.node (.module (g.moduleKey k.destination m)) := by
      intro m
      simp [node, Graph.moduleKey, σ.isHostModule]
    change σ.node y ∈ (g'.productAt (σ.product k.product)).modules.map
      (fun m => Node.module (g'.moduleKey k.destination m)) ↔ _
    rw [List.mem_map, σ.exists_members, Graph.successors, List.mem_map]
    simp only [hkey, σ.node.injective.eq_iff]

lemma mem_rootNodes {x : Node} : σ.node x ∈ g'.rootNodes ↔ x ∈ g.rootNodes := by
  have hproduct : ∀ p, Node.product (g'.productKey .target (σ.product p)) =
      σ.node (.product (g.productKey .target p)) := by
    intro p
    simp [node, Graph.productKey, σ.isHostProduct]
  have hmodule : ∀ m, Node.module (g'.moduleKey .target (σ.module m)) =
      σ.node (.module (g.moduleKey .target m)) := by
    intro m
    simp [node, Graph.moduleKey, σ.isHostModule]
  simp only [Graph.rootNodes, List.mem_append, List.mem_map]
  refine or_congr ?_ ?_
  · rw [σ.product.surjective.exists]
    simp only [hproduct, σ.node.injective.eq_iff, σ.mem_rootProducts]
  · rw [σ.module.surjective.exists]
    simp only [hmodule, σ.node.injective.eq_iff, σ.mem_rootModules]

lemma mem_reachedNodes (hg : g.IsClosed) (hg' : g'.IsClosed) {x : Node} :
    σ.node x ∈ g'.reachedNodes ↔ x ∈ g.reachedNodes := by
  rw [Graph.mem_reachedNodes hg', Graph.mem_reachedNodes hg, σ.node.surjective.exists]
  refine exists_congr fun r => ?_
  rw [σ.mem_rootNodes]
  exact and_congr_right' (reflTransGen_equiv σ.node fun _ _ => σ.mem_successors)

lemma mem_reachedModules (hg : g.IsClosed) (hg' : g'.IsClosed) {m : ModuleId} {d : Destination} :
    ⟨σ.module m, d⟩ ∈ g'.reachedModules ↔ ⟨m, d⟩ ∈ g.reachedModules := by
  rw [Graph.mem_reachedModules hg', Graph.mem_reachedModules hg]
  exact σ.mem_reachedNodes hg hg' (x := .module ⟨m, d⟩)

lemma mem_reachedProducts (hg : g.IsClosed) (hg' : g'.IsClosed) {p : ProductId}
    {d : Destination} : ⟨σ.product p, d⟩ ∈ g'.reachedProducts ↔ ⟨p, d⟩ ∈ g.reachedProducts := by
  rw [Graph.mem_reachedProducts hg', Graph.mem_reachedProducts hg]
  exact σ.mem_reachedNodes hg hg' (x := .product ⟨p, d⟩)

/-! ### Layouts -/

section Layouts

open Alias (Resolution)

variable {r r' : Resolution} {target host : Parameters}

lemma exists_planned (hg : g.IsClosed) (hg' : g'.IsClosed)
    (hnames : ∀ m, r'.finalName (σ.module m) = r.finalName m) :
    (∃ plan, layoutOf g' target host r' = .ok (.planned plan)) ↔
      ∃ plan, layoutOf g target host r = .ok (.planned plan) := by
  have hkeys : ∀ {P : ModuleKey → Prop}, (∀ k ∈ g'.reachedModules, P k) ↔
      ∀ k ∈ g.reachedModules, P ⟨σ.module k.module, k.destination⟩ := by
    intro P
    refine ⟨fun h k hk => h _ ((σ.mem_reachedModules hg hg').2 hk), ?_⟩
    rintro h ⟨m', d⟩ hk
    obtain ⟨m, rfl⟩ := σ.module.surjective m'
    exact h ⟨m, d⟩ ((σ.mem_reachedModules hg hg').1 hk)
  simp only [exists_planned_iff, hkeys, hnames, σ.module.injective.eq_iff]

lemma isHostDuplicate (hg : g.IsClosed) (hg' : g'.IsClosed) (m : ModuleId) (d : Destination) :
    Build.isHostDuplicate g'.reachedModules ⟨σ.module m, d⟩ =
      Build.isHostDuplicate g.reachedModules ⟨m, d⟩ := by
  rw [Bool.eq_iff_iff]
  simp only [Build.isHostDuplicate, Bool.and_eq_true, List.contains_iff_mem,
    σ.mem_reachedModules hg hg']

end Layouts

end BuildPlanner.Reordering

namespace BuildPlanner.Build

open Alias (Resolution resolve)
open Diagnostic (Engine Policy)

variable {g g' : Graph} {target host : Parameters}

/-! ### Plans -/

/-- Two builds of a module are made under the same names. -/
structure PlannedModule.Agrees (x y : PlannedModule) : Prop where
  finalName : y.finalName = x.finalName
  buildName : y.buildName = x.buildName
  aliases : y.aliases = x.aliases

/-- Two builds of a product are made under the same name and put in the same place. -/
structure PlannedProduct.Agrees (x y : PlannedProduct) : Prop where
  buildName : y.buildName = x.buildName
  binaryPath : y.binaryPath = x.binaryPath

/-- Two plans have the same builds, up to the positions of modules and products. -/
structure Plan.Agrees (σ : Reordering g g') (plan plan' : Plan) : Prop where
  modules : ∀ m d, Option.Rel PlannedModule.Agrees (plan.module? ⟨m, d⟩)
    (plan'.module? ⟨σ.module m, d⟩)
  products : ∀ p d, Option.Rel PlannedProduct.Agrees (plan.product? ⟨p, d⟩)
    (plan'.product? ⟨σ.product p, d⟩)

lemma agrees_layoutOf (hg : g.IsClosed) (hg' : g'.IsClosed) (σ : Reordering g g')
    {r r' : Resolution} (hnaming : ∀ m, r'.naming? (σ.module m) = r.naming? m)
    {plan plan' : Plan} (h : layoutOf g target host r = .ok (.planned plan))
    (h' : layoutOf g' target host r' = .ok (.planned plan')) : plan.Agrees σ plan' := by
  refine ⟨fun m d => ?_, fun p d => ?_⟩
  · have hmem : ⟨σ.module m, d⟩ ∈ g'.reachedModules ↔ ⟨m, d⟩ ∈ g.reachedModules :=
      σ.mem_reachedModules hg hg'
    by_cases hk : ⟨m, d⟩ ∈ g.reachedModules
    · obtain ⟨name, hname, hplanned⟩ := module?_layoutOf h hk
      obtain ⟨name', hname', hplanned'⟩ := module?_layoutOf h' (hmem.2 hk)
      have hfinal : r'.finalName (σ.module m) = r.finalName m := by
        rw [Resolution.finalName, hnaming, Resolution.finalName]
      have haliases : r'.aliases (σ.module m) = r.aliases m := by
        rw [Resolution.aliases, hnaming, Resolution.aliases]
      obtain rfl : name' = name := Except.ok.inj (hname'.symm.trans (hfinal.trans hname))
      rw [hplanned, hplanned', σ.isHostDuplicate hg hg']
      exact .some ⟨rfl, rfl, haliases⟩
    · have hnone : plan.module? ⟨m, d⟩ = none := by
        rw [← Option.not_isSome_iff_eq_none, (layoutOf_planned h).isSome_module?]
        exact hk
      have hnone' : plan'.module? ⟨σ.module m, d⟩ = none := by
        rw [← Option.not_isSome_iff_eq_none, (layoutOf_planned h').isSome_module?]
        exact hmem.not.2 hk
      rw [hnone, hnone']
      exact .none
  · have hlinked : ∀ d, ⟨σ.product p, d⟩ ∈ linkedProducts g' ↔ ⟨p, d⟩ ∈ linkedProducts g := by
      intro d
      simp only [linkedProducts, List.mem_filter, σ.mem_reachedProducts hg hg', σ.kind_product]
    rw [product?_layoutOf h, product?_layoutOf h']
    by_cases hk : ⟨p, d⟩ ∈ linkedProducts g
    · have htarget : (linkedProducts g').contains ⟨σ.product p, .target⟩ =
          (linkedProducts g).contains ⟨p, .target⟩ := by
        rw [Bool.eq_iff_iff, List.contains_iff_mem, List.contains_iff_mem, hlinked]
      rw [if_pos hk, if_pos ((hlinked d).2 hk)]
      refine .some ⟨?_, ?_⟩
      · simp only [planProduct, htarget, σ.name_product]
      · simp only [PlannedProduct.binaryPath, planProduct, htarget, σ.name_product, σ.kind_product]
    · rw [if_neg hk, if_neg ((hlinked d).not.2 hk)]
      exact .none

/-- **Declaration order does not matter.** For two graphs that differ in it alone, and engines
without a past that follow one policy, resolution leads to an error for both or for neither. If for
neither, every module is reachable, named and given aliases as it is at its new position. There is
a plan for both or for neither, and the two plans have the same builds, with the same names,
aliases and binaries. -/
theorem create_reordered (σ : Reordering g g') (hg : g.Assembled) (hg' : g'.Assembled)
    (policy : Policy) (target host : Parameters) : ∃ o o', resolve g = .ok o ∧
      resolve g' = .ok o' ∧
      (({ policy } : Engine).diagnoseAll o'.log).hadError =
        (({ policy } : Engine).diagnoseAll o.log).hadError ∧
      ((({ policy } : Engine).diagnoseAll o.log).hadError = false → ∀ m,
        o'.resolution.isReachable (σ.module m) = o.resolution.isReachable m ∧
        o'.resolution.finalName (σ.module m) = o.resolution.finalName m ∧
        o'.resolution.aliases (σ.module m) = o.resolution.aliases m) ∧
      ((∃ a plan, create g target host { policy } = .ok a ∧ a.plan = some plan) ↔
        ∃ a' plan', create g' target host { policy } = .ok a' ∧ a'.plan = some plan') ∧
      ∀ a plan a' plan', create g target host { policy } = .ok a → a.plan = some plan →
        create g' target host { policy } = .ok a' → a'.plan = some plan' → plan.Agrees σ plan' := by
  have hclosed := hg.isClosed
  have hclosed' := hg'.isClosed
  obtain ⟨o, ho⟩ := Alias.exists_resolve hclosed
  obtain ⟨o', ho'⟩ := Alias.exists_resolve hclosed'
  have herror := Reordering.hadError hg hg' σ ho ho' policy
  -- Without an error the requests can all be met, so that every module has its naming.
  have hnaming : (({ policy } : Engine).diagnoseAll o.log).hadError = false → ∀ m,
      o'.resolution.naming? (σ.module m) = o.resolution.naming? m := by
    intro hnone
    have hc : Alias.Coherent g := by
      by_contra hc
      rw [(Alias.hadError_iff hclosed hg.isIdentified ho policy).2 fun h => absurd h hc] at hnone
      cases hnone
    exact Reordering.naming? hclosed hclosed' hc σ ho ho'
  have hcreate := create_eq_plan_iff_of_resolve ho target host { policy }
  have hcreate' := create_eq_plan_iff_of_resolve ho' target host { policy }
  rw [herror] at hcreate'
  refine ⟨o, o', ho, ho', herror, fun hnone m => ?_, ?_, ?_⟩
  · have hm := hnaming hnone m
    rw [Resolution.isReachable, Resolution.isReachable, Resolution.finalName,
      Resolution.finalName, Resolution.aliases, Resolution.aliases, hm]
    exact ⟨rfl, rfl, rfl⟩
  · rw [exists_comm, exists_comm (α := Attempt) (p := fun a' plan' => _)]
    simp only [hcreate, hcreate', exists_and_left]
    refine and_congr_right fun hnone => and_congr_right' (and_congr_right' ?_)
    refine (σ.exists_planned hclosed hclosed' fun m => ?_).symm
    rw [Resolution.finalName, hnaming hnone, Resolution.finalName]
  · intro a plan a' plan' ha hplan ha' hplan'
    obtain ⟨hnone, -, -, hlayout⟩ := (hcreate plan).1 ⟨a, ha, hplan⟩
    obtain ⟨-, -, -, hlayout'⟩ := (hcreate' plan').1 ⟨a', ha', hplan'⟩
    exact agrees_layoutOf hclosed hclosed' σ (hnaming hnone) hlayout hlayout'

/-- An application that asks for the modules `Utils` of two libraries under other names. -/
def forwards : Graph where
  packages := [
    { identity := "app", display := "app", isRoot := true, modules := [0] },
    { identity := "left", display := "left", modules := [1], products := [0] },
    { identity := "right", display := "right", modules := [2], products := [1] }]
  modules := [
    { name := "App", sources := { swift := true }
      dependencies := [
        .product 0 [⟨"Utils", "LeftUtils"⟩], .product 1 [⟨"Utils", "RightUtils"⟩]] },
    { name := "Utils", owner := 1, sources := { swift := true } },
    { name := "Utils", owner := 2, sources := { swift := true } }]
  products := [
    { name := "LeftLib", owner := 1, modules := [1] },
    { name := "RightLib", owner := 2, modules := [2] }]

/-- The same, declared the other way round. -/
def backwards : Graph where
  packages := [
    { identity := "right", display := "right", modules := [0], products := [0] },
    { identity := "left", display := "left", modules := [1], products := [1] },
    { identity := "app", display := "app", isRoot := true, modules := [2] }]
  modules := [
    { name := "Utils", owner := 0, sources := { swift := true } },
    { name := "Utils", owner := 1, sources := { swift := true } },
    { name := "App", owner := 2, sources := { swift := true }
      dependencies := [
        .product 0 [⟨"Utils", "RightUtils"⟩], .product 1 [⟨"Utils", "LeftUtils"⟩]] }]
  products := [
    { name := "RightLib", owner := 0, modules := [0] },
    { name := "LeftLib", owner := 1, modules := [1] }]

/-- The first comes last, but the library on the left stays in the middle. -/
def turned : Reordering forwards backwards where
  package := Equiv.swap 0 2
  module := Equiv.swap 0 2
  product := Equiv.swap 0 1
  packages
    | 0 => .some ⟨rfl, rfl, rfl, rfl, rfl, .refl _, .refl _⟩
    | 1 => .some ⟨rfl, rfl, rfl, rfl, rfl, .refl _, .refl _⟩
    | 2 => .some ⟨rfl, rfl, rfl, rfl, rfl, .refl _, .refl _⟩
    | _ + 3 => .none
  modules
    | 0 => .some ⟨rfl, rfl, rfl, rfl, .swap _ _ _⟩
    | 1 => .some ⟨rfl, rfl, rfl, rfl, .refl _⟩
    | 2 => .some ⟨rfl, rfl, rfl, rfl, .refl _⟩
    | _ + 3 => .none
  products
    | 0 => .some ⟨rfl, rfl, rfl, .refl _⟩
    | 1 => .some ⟨rfl, rfl, rfl, .refl _⟩
    | _ + 2 => .none

/-- The descriptions of the application, with its dependencies in some order, and of a library. -/
def applicationEntry (ds : List Document.DependencyEntry) : Document.PackageEntry where
  identity := "app"
  isRoot := true
  modules := [{ name := "App", dependencies := ds }]

def libraryEntry (identity product : String) : Document.PackageEntry where
  identity := identity
  modules := [{ name := "Utils" }]
  products := [{ name := product, modules := ["Utils"] }]

def libraryDependency (identity product name : String) : Document.DependencyEntry where
  product := product
  package := identity
  aliases := .ofList [("Utils", name)]

lemma assembled_forwards : forwards.Assembled := by
  have hdescribed : (Document.mk [
      applicationEntry [libraryDependency "left" "LeftLib" "LeftUtils",
        libraryDependency "right" "RightLib" "RightUtils"],
      libraryEntry "left" "LeftLib", libraryEntry "right" "RightLib"]).toGraph.toOption =
        some forwards := by
    decide +kernel
  exact Document.assembled_of_toGraph (Fault.toOption_eq_some.1 hdescribed)

lemma assembled_backwards : backwards.Assembled := by
  have hdescribed : (Document.mk [
      libraryEntry "right" "RightLib", libraryEntry "left" "LeftLib",
      applicationEntry [libraryDependency "right" "RightLib" "RightUtils",
        libraryDependency "left" "LeftLib" "LeftUtils"]]).toGraph.toOption =
        some backwards := by
    decide +kernel
  exact Document.assembled_of_toGraph (Fault.toOption_eq_some.1 hdescribed)

theorem create_reordered_turned : forwards.Assembled ∧ backwards.Assembled ∧ ∃ a plan,
    create backwards (.debug .target) (.debug .host) { policy := {} } = .ok a ∧
      a.plan = some plan ∧
        (plan.module? ⟨0, .target⟩).map (·.finalName) = some "RightUtils" := by
  obtain ⟨a, plan, hcreate, hplan, hname⟩ : ∃ a plan, create forwards (.debug .target)
      (.debug .host) { policy := {} } = .ok a ∧ a.plan = some plan ∧ _ :=
    exists_plan (fun plan => (plan.module? ⟨2, .target⟩).map (·.finalName) = some "RightUtils")
      (by decide +kernel)
  obtain ⟨-, -, -, -, -, -, hexists, hagrees⟩ := create_reordered turned assembled_forwards
    assembled_backwards {} (.debug .target) (.debug .host)
  obtain ⟨a', plan', hcreate', hplan'⟩ := hexists.1 ⟨a, plan, hcreate, hplan⟩
  refine ⟨assembled_forwards, assembled_backwards, a', plan', hcreate', hplan', ?_⟩
  have hrel := (hagrees a plan a' plan' hcreate hplan hcreate' hplan').modules 2 .target
  obtain ⟨x, hx, hxname⟩ := Option.map_eq_some_iff.1 (of_decide_eq_true hname)
  rw [hx] at hrel
  change Option.Rel _ _ (plan'.module? ⟨0, .target⟩) at hrel
  cases hy : plan'.module? ⟨0, .target⟩ with
  | none =>
    rw [hy] at hrel
    cases hrel
  | some y =>
    rw [hy] at hrel
    rw [Option.map_some, (Option.rel_some_some.1 hrel).finalName, hxname]

end BuildPlanner.Build
