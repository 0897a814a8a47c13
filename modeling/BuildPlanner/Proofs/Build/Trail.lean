import BuildPlanner.Build.Traversal
import BuildPlanner.Proofs.Build.Cycle
import BuildPlanner.Proofs.Build.Layout
import BuildPlanner.Proofs.Build.Reach
import BuildPlanner.Proofs.Graph.Assembly

/-!
Child builds, and the paths that walks through a plan take along them.

On a walk the destinations of what a build depends on are found anew, by the rule that decided what
to build, so a walk never leaves the plan. A build leads to builds of modules that its module leads
to. So where no cycle of modules is reached, no build comes twice on the path of a walk, and the
path is no longer than the plan.
-/

namespace BuildPlanner.Graph

open Build
open Relation (ReflTransGen TransGen)

variable {g : Graph}

/-! ### Child builds -/

def dependencyKeys (g : Graph) (d : Destination) : Dependency → List ModuleKey
  | .module m => [g.moduleKey d m]
  | .product p _ => (g.productAt p).modules.map (g.moduleKey (g.productKey d p).destination)

def childKeys (g : Graph) (k : ModuleKey) : List ModuleKey :=
  (g.moduleAt k.module).dependencies.flatMap (g.dependencyKeys k.destination)

lemma moduleKey?_of_lt {m : ModuleId} (hm : m < g.modules.length) (d : Destination) :
    g.moduleKey? d m = .ok (g.moduleKey d m) := by
  rw [moduleKey?, module_of_lt hm]
  rfl

lemma productKey?_of_lt {p : ProductId} (hp : p < g.products.length) (d : Destination) :
    g.productKey? d p = .ok (g.productKey d p) := by
  rw [productKey?, product_of_lt hp]
  rfl

lemma IsClosed.dependencySlots_eq (hg : g.IsClosed) {x : Dependency}
    (hx : g.danglingFault? x = none) (d : Destination) :
    dependencySlots g d x = (g.dependencyKeys d x).map .ok := by
  cases x with
  | module m =>
    have hm := danglingFault?_module.1 hx
    simp [dependencySlots, dependencyKeys, moduleKey?_of_lt hm]
  | product p aliases =>
    have hp := danglingFault?_product.1 hx
    simp only [dependencySlots, productKey?_of_lt hp, dependencyKeys, List.map_map]
    exact List.map_congr_left fun m hm => moduleKey?_of_lt (hg.module_lt_of_mem_product hm) _

lemma IsClosed.slots_eq (hg : g.IsClosed) (k : ModuleKey) :
    slots g k = (g.childKeys k).map .ok := by
  rw [slots, childKeys, List.map_flatMap]
  exact List.flatMap_congr fun x hx => hg.dependencySlots_eq (hg.dependency hx) _

lemma leads_of_mem_childKeys {k l : ModuleKey} (hl : l ∈ g.childKeys k) :
    g.Leads k.module l.module := by
  obtain ⟨x, hx, hl⟩ := List.mem_flatMap.1 hl
  cases x with
  | module m =>
    obtain rfl := List.mem_singleton.1 hl
    exact .module hx
  | product p aliases =>
    obtain ⟨m, hm, rfl⟩ := List.mem_map.1 hl
    exact .product hx hm

lemma transGen_of_mem_childKeys {k l : ModuleKey} (hl : l ∈ g.childKeys k) :
    TransGen (fun x y => y ∈ g.successors x) (.module k) (.module l) := by
  obtain ⟨x, hx, hl⟩ := List.mem_flatMap.1 hl
  have hstep : g.dependencyNode k.destination x ∈ g.successors (.module k) :=
    List.mem_map.2 ⟨x, hx, rfl⟩
  cases x with
  | module m =>
    obtain rfl := List.mem_singleton.1 hl
    exact .single hstep
  | product p aliases =>
    exact .head hstep (.single (List.mem_map.2 ((List.mem_map.1 hl).imp fun m hm =>
      ⟨hm.1, congrArg Node.module hm.2⟩)))

lemma module_mem_successors {k l : ModuleKey} (hl : .module l ∈ g.successors (.module k)) :
    l ∈ g.childKeys k := by
  obtain ⟨x, hx, heq⟩ := List.mem_map.1 hl
  cases x with
  | module m =>
    obtain rfl := Node.module.inj heq
    exact List.mem_flatMap.2 ⟨_, hx, List.mem_singleton.2 rfl⟩
  | product p aliases => cases heq

lemma product_mem_successors {k : ModuleKey} {q : ProductKey} :
    .product q ∈ g.successors (.module k) ↔ ∃ p aliases,
      .product p aliases ∈ (g.moduleAt k.module).dependencies ∧
        g.productKey k.destination p = q := by
  refine ⟨fun hq => ?_, ?_⟩
  · obtain ⟨x, hx, heq⟩ := List.mem_map.1 hq
    cases x with
    | module m => cases heq
    | product p aliases => exact ⟨p, aliases, hx, Node.product.inj heq⟩
  · rintro ⟨p, aliases, hp, rfl⟩
    exact List.mem_map.2 ⟨_, hp, rfl⟩

lemma mem_childKeys_of_product {k l : ModuleKey} {q : ProductKey}
    (hq : .product q ∈ g.successors (.module k)) (hl : .module l ∈ g.successors (.product q)) :
    l ∈ g.childKeys k := by
  obtain ⟨p, aliases, hp, rfl⟩ := product_mem_successors.1 hq
  obtain ⟨m, hm, heq⟩ := List.mem_map.1 hl
  exact List.mem_flatMap.2 ⟨_, hp, List.mem_map.2 ⟨m, hm, Node.module.inj heq⟩⟩

/-- What a build leads to: child builds, their child builds and so on, and the products that these
and the build depend on. -/
lemma transGen_successors_iff {s : ModuleKey} {y : Node} :
    TransGen (fun x y => y ∈ g.successors x) (.module s) y ↔
      match y with
      | .module k => TransGen (fun k l => l ∈ g.childKeys k) s k
      | .product q =>
        ∃ k, ReflTransGen (fun k l => l ∈ g.childKeys k) s k ∧
          .product q ∈ g.successors (.module k) := by
  refine ⟨fun h => ?_, fun h => ?_⟩
  · induction h with
    | @single y hy =>
      cases y with
      | module k => exact .single (module_mem_successors hy)
      | product q => exact ⟨s, .refl, hy⟩
    | @tail x y _ hy ih =>
      cases x with
      | module k =>
        cases y with
        | module l => exact .tail ih (module_mem_successors hy)
        | product q => exact ⟨k, ih.to_reflTransGen, hy⟩
      -- A product is passed on the way to its members, which are then children of `k`.
      | product p =>
        obtain ⟨k, hk, hp⟩ := ih
        cases y with
        | module l => exact .tail' hk (mem_childKeys_of_product hp hy)
        | product q => simp [successors] at hy
  · cases y with
    | module k => exact h.lift' Node.module fun _ _ => transGen_of_mem_childKeys
    | product q =>
      obtain ⟨k, hk, hq⟩ := h
      exact .tail' (hk.lift' Node.module fun _ _ hl =>
        (transGen_of_mem_childKeys hl).to_reflTransGen) hq

lemma IsClosed.mem_reachedModules_of_child (hg : g.IsClosed) {k l : ModuleKey}
    (hk : k ∈ g.reachedModules) (hl : l ∈ g.childKeys k) : l ∈ g.reachedModules := by
  obtain ⟨r, hr, hrk⟩ := (mem_reachedNodes hg).1 ((mem_reachedModules hg).1 hk)
  exact (mem_reachedModules hg).2
    ((mem_reachedNodes hg).2 ⟨r, hr, hrk.trans (transGen_of_mem_childKeys hl).to_reflTransGen⟩)

lemma IsClosed.mem_reachedProducts_of_dependency (hg : g.IsClosed) {k : ModuleKey}
    (hk : k ∈ g.reachedModules) {p : ProductId} {aliases : List AliasRequest}
    (hp : .product p aliases ∈ (g.moduleAt k.module).dependencies) :
    g.productKey k.destination p ∈ g.reachedProducts := by
  obtain ⟨r, hr, hrk⟩ := (mem_reachedNodes hg).1 ((mem_reachedModules hg).1 hk)
  exact (mem_reachedProducts hg).2 ((mem_reachedNodes hg).2
    ⟨r, hr, hrk.tail (List.mem_map.2 ⟨_, hp, rfl⟩)⟩)

lemma IsClosed.mem_reachedModules_of_root (hg : g.IsClosed) {m : ModuleId}
    (hm : m ∈ g.rootModules) : g.moduleKey .target m ∈ g.reachedModules :=
  (mem_reachedModules hg).2 ((mem_reachedNodes hg).2
    ⟨_, List.mem_append_right _ (List.mem_map.2 ⟨m, hm, rfl⟩), .refl⟩)

lemma lt_of_mem_reachedModules {k : ModuleKey} (hk : k ∈ g.reachedModules) :
    k.module < g.modules.length :=
  mem_moduleKeys.1 (List.mem_of_mem_filter hk)

end BuildPlanner.Graph

namespace BuildPlanner.Build

open BuildPlanner.Graph
open Relation (TransGen)

variable {g : Graph} {target host : Parameters} {plan : Plan}

/-! ### Paths of a walk -/

/-- A path of builds that are to be made, innermost first, along which each build is a child of
the one outside it. -/
structure Trail (g : Graph) (path : List ModuleKey) : Prop where
  chain : path.IsChain fun k l => k ∈ g.childKeys l
  planned : ∀ k ∈ path, k ∈ g.reachedModules
  reached : ∀ k ∈ path, g.IsReached k.module

namespace Trail

lemma child (hg : g.IsClosed) {k l : ModuleKey} {path : List ModuleKey}
    (h : Trail g (k :: path)) (hl : l ∈ g.childKeys k) : Trail g (l :: k :: path) where
  chain := List.isChain_cons_cons.2 ⟨hl, h.chain⟩
  planned := by
    rintro x (_ | ⟨_, hx⟩)
    · exact hg.mem_reachedModules_of_child (h.planned k (by simp)) hl
    · exact h.planned x hx
  reached := by
    rintro x (_ | ⟨_, hx⟩)
    · exact (h.reached k (by simp)).step (leads_of_mem_childKeys hl)
    · exact h.reached x hx

lemma nodup (hac : ¬ g.IsCyclic) {path : List ModuleKey} (h : Trail g path) : path.Nodup := by
  have hleads : (path.reverse.map (·.module)).IsChain g.Leads := by
    rw [List.isChain_map, List.isChain_reverse]
    exact h.chain.imp fun _ _ => leads_of_mem_childKeys
  have hnodup : (path.reverse.map (·.module)).Nodup := by
    refine nodup_of_isChain hac hleads fun m hm => ?_
    obtain ⟨k, hk, rfl⟩ := List.mem_map.1 hm
    exact h.reached k (List.mem_reverse.1 hk)
  exact List.nodup_reverse.1 hnodup.of_map

lemma length_le (hac : ¬ g.IsCyclic) {path : List ModuleKey} (h : Trail g path) :
    path.length ≤ g.reachedModules.length :=
  ((h.nodup hac).subperm fun k => h.planned k).length_le

end Trail

/-! ### Plans -/

/-- All builds of a plan are of modules that a graph has. -/
def Plan.InRange (g : Graph) (plan : Plan) : Prop :=
  ∀ k, (plan.module? k).isSome = true → k.module < g.modules.length

/-- What a plan has in common with the graph that it was made of, as far as walks need it. -/
structure Plan.Covers (g : Graph) (plan : Plan) : Prop where
  acyclic : ¬ g.IsCyclic
  planned : ∀ k, (plan.module? k).isSome = true ↔ k ∈ g.reachedModules
  length : plan.modules.length = g.reachedModules.length
  roots : plan.roots = g.rootModules.map (g.moduleKey .target)
  reached : ∀ k ∈ g.reachedModules, g.IsReached k.module

lemma covers_of_create (hg : g.IsClosed) {engine : Diagnostic.Engine} {a : Attempt}
    (h : create g target host engine = .ok a) (hplan : a.plan = some plan) : plan.Covers g := by
  obtain ⟨hac, o, -, hdecides, -, hlaid⟩ := create_decides hg h hplan
  have hplanned (k : ModuleKey) : (plan.module? k).isSome = true ↔ k ∈ g.reachedModules :=
    hlaid.isSome_module?
  refine ⟨hac, hplanned, ?_, ?_, fun k hk => ?_⟩
  · rw [← hlaid.moduleKeys, List.length_map]
  · obtain ⟨o', -, -, -, -, hlayout⟩ := create_eq_plan_iff.1 ⟨a, h, hplan⟩
    obtain ⟨ms, -, -, rfl⟩ := layoutOf_eq_planned_iff.1 hlayout
    rfl
  · obtain ⟨m, hm⟩ := Option.isSome_iff_exists.1 ((hplanned k).2 hk)
    exact hdecides.isReached_of_finalName (hlaid.finalName_of_module? hm).1

lemma Plan.Covers.mem_reachedModules (h : plan.Covers g) {m : PlannedModule}
    (hm : m ∈ plan.modules) : m.key ∈ g.reachedModules :=
  (h.planned m.key).1 (isSome_module?_iff.2 (List.mem_map_of_mem hm))

lemma Plan.Covers.trail (h : plan.Covers g) {k : ModuleKey} (hk : k ∈ g.reachedModules) :
    Trail g [k] where
  chain := .singleton _
  planned := List.forall_mem_singleton.2 hk
  reached := List.forall_mem_singleton.2 (h.reached k hk)

lemma Plan.Covers.irrefl (h : plan.Covers g) {k : ModuleKey} (hk : k ∈ g.reachedModules) :
    ¬ TransGen (fun k l => l ∈ g.childKeys k) k k := fun hloop =>
  h.acyclic ⟨k.module, h.reached k hk, hloop.lift (·.module) fun _ _ => leads_of_mem_childKeys⟩

end BuildPlanner.Build
