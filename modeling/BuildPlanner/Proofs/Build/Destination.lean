import BuildPlanner.Proofs.Build.Plan
import BuildPlanner.Proofs.Build.Reach

/-!
Destinations in terms of paths.

A path starts at a root product or root module, and goes from products to their modules and from
modules to what they depend on. Something is built for the host if a path to it passes a part that
is forced to the host, the end included, and for the target if a path to it passes none.
-/

namespace BuildPlanner.Build

/-- A module or product, whatever it is built for. -/
inductive Part
  | module (m : ModuleId)
  | product (p : ProductId)
deriving DecidableEq

def Part.node (d : Destination) : Part → Node
  | module m => .module ⟨m, d⟩
  | product p => .product ⟨p, d⟩

namespace Node

def part : Node → Part
  | module k => .module k.module
  | product k => .product k.product

def destination : Node → Destination
  | module k => k.destination
  | product k => k.destination

@[simp] lemma part_node (d : Destination) (x : Part) : (x.node d).part = x := by cases x <;> rfl

@[simp] lemma destination_node (d : Destination) (x : Part) : (x.node d).destination = d := by
  cases x <;> rfl

lemma eq_of_part_eq {y z : Node} (hpart : y.part = z.part)
    (hhost : y.destination = .host ↔ z.destination = .host) : y = z := by
  obtain ⟨m, d⟩ | ⟨p, d⟩ := y <;> obtain ⟨n, d'⟩ | ⟨q, d'⟩ := z <;>
    cases d <;> cases d' <;> simp_all [part, destination]

end Node

end BuildPlanner.Build

namespace BuildPlanner.Graph

open Build
open Relation (ReflTransGen)

variable {g : Graph}

/-! ### Paths -/

/-- A product uses its modules, and a module what it depends on. -/
inductive Uses (g : Graph) : Part → Part → Prop
  | member {p : ProductId} {m : ModuleId} (h : m ∈ (g.productAt p).modules) :
    Uses g (.product p) (.module m)
  | module {m n : ModuleId} (h : .module n ∈ (g.moduleAt m).dependencies) :
    Uses g (.module m) (.module n)
  | product {m : ModuleId} {p : ProductId} {aliases : List AliasRequest}
    (h : .product p aliases ∈ (g.moduleAt m).dependencies) : Uses g (.module m) (.product p)

def IsRoot (g : Graph) : Part → Prop
  | .module m => m ∈ g.rootModules
  | .product p => p ∈ g.rootProducts

/-- A list of parts from a root to the given part, each of which uses the next. -/
inductive Path (g : Graph) : List Part → Part → Prop
  | root {x : Part} (h : g.IsRoot x) : Path g [x] x
  | snoc {xs : List Part} {x y : Part} (h : Path g xs x) (hy : g.Uses x y) : Path g (xs ++ [y]) y

/-- A module has a macro or plugin among its direct dependencies. -/
inductive UsesPlugin (g : Graph) (m : ModuleId) : Prop
  | module {n : ModuleId} (h : .module n ∈ (g.moduleAt m).dependencies)
    (hn : (g.moduleAt n).kind = .codeMacro ∨ (g.moduleAt n).kind = .plugin)
  | product {p : ProductId} {aliases : List AliasRequest}
    (h : .product p aliases ∈ (g.moduleAt m).dependencies)
    (hp : (g.productAt p).kind = .codeMacro ∨ (g.productAt p).kind = .plugin)

/-- Macros, plugins and tools run on the host, and so do tests that use a macro or plugin. -/
def IsHostForced (g : Graph) : Part → Prop
  | .module m => (g.moduleAt m).kind = .codeMacro ∨ (g.moduleAt m).kind = .plugin ∨
      (g.moduleAt m).kind = .test ∧ g.UsesPlugin m
  | .product p => (g.productAt p).kind = .codeMacro ∨ (g.productAt p).kind = .plugin ∨
      (g.productAt p).kind = .tool ∨
      (g.productAt p).kind = .test ∧ ∃ m ∈ (g.productAt p).modules, g.UsesPlugin m

/-! ### Forced parts -/

lemma hasCompileTimeDependency_iff {m : ModuleId} :
    g.hasCompileTimeDependency m = true ↔ g.UsesPlugin m := by
  rw [hasCompileTimeDependency, List.any_eq_true]
  refine ⟨?_, ?_⟩
  · rintro ⟨d, hd, hruns⟩
    cases d with
    | module n => exact .module hd (by simpa [runsAtCompileTime] using hruns)
    | product p aliases => exact .product hd (by simpa [runsAtCompileTime] using hruns)
  · rintro (⟨h, hn⟩ | ⟨h, hp⟩)
    · exact ⟨_, h, by simpa [runsAtCompileTime] using hn⟩
    · exact ⟨_, h, by simpa [runsAtCompileTime] using hp⟩

lemma isHostModule_iff {m : ModuleId} :
    g.isHostModule m = true ↔ g.IsHostForced (.module m) := by
  rw [isHostModule, Bool.or_eq_true, Bool.and_eq_true, hasCompileTimeDependency_iff, IsHostForced]
  cases (g.moduleAt m).kind <;> simp [ModuleKind.isHostOnly]

lemma isHostProduct_iff {p : ProductId} :
    g.isHostProduct p = true ↔ g.IsHostForced (.product p) := by
  rw [isHostProduct, Bool.or_eq_true, Bool.and_eq_true, List.any_eq_true, IsHostForced]
  simp only [hasCompileTimeDependency_iff]
  cases (g.productAt p).kind <;> simp [ProductKind.isHostOnly]

lemma moduleKey_eq_host_iff {d : Destination} {m : ModuleId} :
    (g.moduleKey d m).destination = .host ↔ g.IsHostForced (.module m) ∨ d = .host := by
  rw [← isHostModule_iff, moduleKey]
  cases g.isHostModule m <;> simp

lemma productKey_eq_host_iff {d : Destination} {p : ProductId} :
    (g.productKey d p).destination = .host ↔ g.IsHostForced (.product p) ∨ d = .host := by
  rw [← isHostProduct_iff, productKey]
  cases g.isHostProduct p <;> simp

/-! ### Builds along paths -/

/-- A build leads to builds of what its part uses. They are for the host if they are forced to it
or the build itself is. -/
lemma mem_successors_iff {x y : Node} : y ∈ g.successors x ↔
    g.Uses x.part y.part ∧
      (y.destination = .host ↔ g.IsHostForced y.part ∨ x.destination = .host) := by
  refine ⟨fun hy => ?_, fun ⟨huses, hhost⟩ => ?_⟩
  · -- A dependency or member is used, and its key has the destination.
    cases x with
    | module k =>
      obtain ⟨d, hd, rfl⟩ := List.mem_map.1 hy
      cases d with
      | module n => exact ⟨.module hd, moduleKey_eq_host_iff⟩
      | product p aliases => exact ⟨.product hd, productKey_eq_host_iff⟩
    | product k =>
      obtain ⟨m, hm, rfl⟩ := List.mem_map.1 hy
      exact ⟨.member hm, moduleKey_eq_host_iff⟩
  · -- Each way of using a part is one kind of successor.
    cases x with
    | module k =>
      obtain ⟨n, d⟩ | ⟨p, d⟩ := y
      · cases huses with
        | module h =>
          refine List.mem_map.2 ⟨_, h, Node.eq_of_part_eq rfl ?_⟩
          exact moduleKey_eq_host_iff.trans hhost.symm
      · cases huses with
        | product h =>
          refine List.mem_map.2 ⟨_, h, Node.eq_of_part_eq rfl ?_⟩
          exact productKey_eq_host_iff.trans hhost.symm
    | product k =>
      obtain ⟨n, d⟩ | ⟨p, d⟩ := y
      · cases huses with
        | member h =>
          refine List.mem_map.2 ⟨_, h, Node.eq_of_part_eq rfl ?_⟩
          exact moduleKey_eq_host_iff.trans hhost.symm
      · cases huses

lemma mem_rootNodes_iff {y : Node} : y ∈ g.rootNodes ↔
    g.IsRoot y.part ∧ (y.destination = .host ↔ g.IsHostForced y.part) := by
  have hmodule : ∀ m, (g.moduleKey .target m).destination = .host ↔
      g.IsHostForced (.module m) := fun m => by simp [moduleKey_eq_host_iff]
  have hproduct : ∀ p, (g.productKey .target p).destination = .host ↔
      g.IsHostForced (.product p) := fun p => by simp [productKey_eq_host_iff]
  refine ⟨fun hy => ?_, fun ⟨hroot, hhost⟩ => ?_⟩
  · rcases List.mem_append.1 hy with hy | hy
    · obtain ⟨p, hp, rfl⟩ := List.mem_map.1 hy
      exact ⟨hp, hproduct p⟩
    · obtain ⟨m, hm, rfl⟩ := List.mem_map.1 hy
      exact ⟨hm, hmodule m⟩
  · obtain ⟨m, d⟩ | ⟨p, d⟩ := y
    · refine List.mem_append_right _ (List.mem_map.2 ⟨m, hroot, Node.eq_of_part_eq rfl ?_⟩)
      exact (hmodule m).trans hhost.symm
    · refine List.mem_append_left _ (List.mem_map.2 ⟨p, hroot, Node.eq_of_part_eq rfl ?_⟩)
      exact (hproduct p).trans hhost.symm

/-- A part is built for the host along paths that pass a forced part, and for the target along
the others. -/
lemma mem_reachedNodes_iff_path (hg : g.IsClosed) {y : Node} : y ∈ g.reachedNodes ↔
    ∃ xs, g.Path xs y.part ∧ (y.destination = .host ↔ ∃ x ∈ xs, g.IsHostForced x) := by
  rw [mem_reachedNodes hg]
  refine ⟨?_, ?_⟩
  · rintro ⟨r, hr, hry⟩
    induction hry with
    | refl =>
      obtain ⟨hroot, hhost⟩ := mem_rootNodes_iff.1 hr
      exact ⟨[r.part], .root hroot, by simpa using hhost⟩
    -- One step on: the path grows by the part, which is forced or not.
    | tail _ hz ih =>
      obtain ⟨xs, hpath, hxs⟩ := ih
      obtain ⟨huses, hhost⟩ := mem_successors_iff.1 hz
      refine ⟨_, hpath.snoc huses, hhost.trans ?_⟩
      simp [hxs, or_and_right, exists_or, or_comm]
  · rintro ⟨xs, hpath, hhost⟩
    generalize hx : y.part = part at hpath
    induction hpath generalizing y with
    | root h =>
      subst hx
      exact ⟨y, mem_rootNodes_iff.2 ⟨h, by simpa using hhost⟩, .refl⟩
    | @snoc xs x part h huses ih =>
      -- The build of the part before is the one that the path to it asks for.
      classical
      let d : Destination := if ∃ z ∈ xs, g.IsHostForced z then .host else .target
      have hd : d = .host ↔ ∃ z ∈ xs, g.IsHostForced z := by
        by_cases hforced : ∃ z ∈ xs, g.IsHostForced z <;> simp [d, hforced]
      obtain ⟨r, hr, hrx⟩ := ih (y := x.node d) (by simpa using hd) (by simp)
      refine ⟨r, hr, hrx.tail (mem_successors_iff.2 ⟨?_, hhost.trans ?_⟩)⟩
      · rw [Node.part_node, hx]
        exact huses
      · rw [Node.destination_node, hd, hx]
        simp [or_and_right, exists_or, or_comm]

/-- A module is due for the host where a path to it passes a part that is forced to the host, and
for the target where a path to it passes none. -/
def IsDue (g : Graph) (k : ModuleKey) : Prop :=
  ∃ xs, g.Path xs (.module k.module) ∧ (k.destination = .host ↔ ∃ x ∈ xs, g.IsHostForced x)

lemma mem_reachedModules_iff_isDue (hg : g.IsClosed) {k : ModuleKey} :
    k ∈ g.reachedModules ↔ g.IsDue k := by
  rw [mem_reachedModules hg, mem_reachedNodes_iff_path hg]
  rfl

end BuildPlanner.Graph

namespace BuildPlanner.Build

variable {g : Graph} {target host : Parameters}

/-- **Destinations are told by paths.** A module is planned for the host if a path to it passes a
part that is forced to the host, and for the target if a path to it passes none; the same holds of
the products that are reached. So nothing forced is planned for the target, and all that a build
for the host leads to is for the host. -/
theorem planned_iff_path (hg : g.IsClosed) {engine : Diagnostic.Engine} {a : Attempt}
    {plan : Plan} (h : create g target host engine = .ok a) (hplan : a.plan = some plan) :
    (∀ m,
      ((plan.module? ⟨m, .host⟩).isSome = true ↔
        ∃ xs, g.Path xs (.module m) ∧ ∃ x ∈ xs, g.IsHostForced x) ∧
      ((plan.module? ⟨m, .target⟩).isSome = true ↔
        ∃ xs, g.Path xs (.module m) ∧ ∀ x ∈ xs, ¬ g.IsHostForced x)) ∧
    (∀ p,
      (⟨p, .host⟩ ∈ g.reachedProducts ↔
        ∃ xs, g.Path xs (.product p) ∧ ∃ x ∈ xs, g.IsHostForced x) ∧
      (⟨p, .target⟩ ∈ g.reachedProducts ↔
        ∃ xs, g.Path xs (.product p) ∧ ∀ x ∈ xs, ¬ g.IsHostForced x)) ∧
    (∀ m, g.IsHostForced (.module m) → plan.module? ⟨m, .target⟩ = none) ∧
    (∀ k, (plan.module? k).isSome = true → k.destination = .host →
      ∀ y ∈ g.successors (.module k), y.destination = .host) ∧
    ∀ k ∈ g.reachedProducts, k.destination = .host →
      ∀ y ∈ g.successors (.product k), y.destination = .host := by
  obtain ⟨o, -, -, hlaid⟩ := create_planned h hplan
  have hmodule : ∀ k : ModuleKey, (plan.module? k).isSome = true ↔
      ∃ xs, g.Path xs (.module k.module) ∧
        (k.destination = .host ↔ ∃ x ∈ xs, g.IsHostForced x) := by
    intro k
    rw [hlaid.isSome_module?, Graph.mem_reachedModules hg, Graph.mem_reachedNodes_iff_path hg]
    rfl
  have hproduct : ∀ k : ProductKey, k ∈ g.reachedProducts ↔
      ∃ xs, g.Path xs (.product k.product) ∧
        (k.destination = .host ↔ ∃ x ∈ xs, g.IsHostForced x) := by
    intro k
    rw [Graph.mem_reachedProducts hg, Graph.mem_reachedNodes_iff_path hg]
    rfl
  have hsuccessors : ∀ x y : Node, x.destination = .host → y ∈ g.successors x →
      y.destination = .host := fun x y hx hy => (Graph.mem_successors_iff.1 hy).2.2 (.inr hx)
  refine ⟨fun m => ⟨?_, ?_⟩, fun p => ⟨?_, ?_⟩, fun m hm => ?_,
    fun k _ hk y hy => hsuccessors (.module k) y hk hy,
    fun k _ hk y hy => hsuccessors (.product k) y hk hy⟩
  · simp [hmodule]
  · simp [hmodule]
  · simp [hproduct]
  · simp [hproduct]
  · by_contra hne
    obtain ⟨xs, hpath, hxs⟩ := (hmodule ⟨m, .target⟩).1 (Option.isSome_iff_ne_none.2 hne)
    have hend : .module m ∈ xs := by
      cases hpath <;> simp
    exact absurd (hxs.2 ⟨_, hend, hm⟩) (by simp)

/-- An application and a macro that both depend on one library. -/
def shared : Graph where
  packages := [{
    identity := "app", display := "app", isRoot := true, modules := [0, 1, 2], products := [0] }]
  modules := [
    { name := "App", kind := .executable, dependencies := [.module 1, .module 2] },
    { name := "Macros", kind := .codeMacro, dependencies := [.module 2] },
    { name := "Core" }]
  products := [{ name := "app", kind := .executable, modules := [0] }]

/-- The library is planned for both destinations, the macro for the host alone. -/
theorem planned_iff_path_shared : shared.IsClosed ∧ ∃ a plan,
    create shared (.debug .target) (.debug .host) {} = .ok a ∧ a.plan = some plan ∧
      (plan.module? ⟨2, .host⟩).isSome = true ∧ (plan.module? ⟨2, .target⟩).isSome = true ∧
      plan.module? ⟨1, .target⟩ = none := by
  have hg : shared.IsClosed := by decide
  obtain ⟨a, plan, hcreate, hplan, -⟩ : ∃ a plan, create shared (.debug .target) (.debug .host)
      {} = .ok a ∧ a.plan = some plan ∧ _ := exists_plan (fun _ => true) (by decide +kernel)
  obtain ⟨hmodules, -, hforced, -⟩ := planned_iff_path hg hcreate hplan
  have happ : shared.Path [.module 0] (.module 0) :=
    .root (show (0 : ModuleId) ∈ shared.rootModules by decide)
  have hmacro : shared.Path [.module 1] (.module 1) :=
    .root (show (1 : ModuleId) ∈ shared.rootModules by decide)
  have hfree : ¬ shared.IsHostForced (.module 0) ∧ ¬ shared.IsHostForced (.module 2) := by
    rw [← Graph.isHostModule_iff, ← Graph.isHostModule_iff]
    decide
  have hkind : shared.IsHostForced (.module 1) := .inl rfl
  refine ⟨hg, a, plan, hcreate, hplan, (hmodules 2).1.2 ⟨_, hmacro.snoc (.module (by decide)), _,
    by simp, hkind⟩, (hmodules 2).2.2 ⟨_, happ.snoc (.module (by decide)), ?_⟩, hforced 1 hkind⟩
  simpa using hfree

end BuildPlanner.Build
