import BuildPlanner.Proofs.Build.Binaries
import BuildPlanner.Proofs.Build.Folders
import BuildPlanner.Proofs.Build.Walks

/-!
What a plan holds for products, and what its builds are called.

A product build is put together from module builds whose destinations are found anew, by the rule
that decided what to build, so they are builds of the plan. Builds of automatic libraries and
plugins are left out of it, and those are the kinds that have no binary.
-/

namespace BuildPlanner.Graph

open Build

lemma IsClosed.mem_reachedModules_of_member {g : Graph} (hg : g.IsClosed) {k : ProductKey}
    (hk : k ∈ g.reachedProducts) {m : ModuleId} (hm : m ∈ (g.productAt k.product).modules) :
    g.moduleKey k.destination m ∈ g.reachedModules := by
  obtain ⟨r, hr, hrk⟩ := (mem_reachedNodes hg).1 ((mem_reachedProducts hg).1 hk)
  exact (mem_reachedModules hg).2
    ((mem_reachedNodes hg).2 ⟨r, hr, hrk.tail (List.mem_map.2 ⟨m, hm, rfl⟩)⟩)

end BuildPlanner.Graph

namespace BuildPlanner.Build

open Diagnostic (Engine)
open Relation (ReflTransGen)

variable {g : Graph} {target host : Parameters} {r : Alias.Resolution} {plan : Plan}

/-! ### Marks -/

/-- What something called `name` is built as, where its build is marked exactly if `marked`. -/
structure MarkedName (name buildName : String) (marked : Prop) : Prop where
  marks : buildName = name ++ "-tool" ↔ marked
  plain : ¬ marked → buildName = name

lemma markedName_of_iff {marked : Prop} {b : Bool} (h : b = true ↔ marked) (name : String) :
    MarkedName name (if b = true then name ++ "-tool" else name) marked := by
  cases b with
  | true => exact ⟨iff_of_true rfl (h.1 rfl), fun hplain => absurd (h.1 rfl) hplain⟩
  | false =>
    have hplain : ¬ marked := fun hmarked => Bool.false_ne_true (h.2 hmarked)
    refine ⟨iff_of_false (fun heq => ?_) hplain, fun _ => rfl⟩
    simpa using congrArg String.length heq

lemma markedName_module (h : layoutOf g target host r = .ok (.planned plan)) {m : PlannedModule}
    (hm : m ∈ plan.modules) : MarkedName m.finalName m.buildName
      (m.key.destination = .host ∧ (plan.module? ⟨m.key.module, .target⟩).isSome = true) := by
  rw [buildName_layoutOf h hm, Plan.mark, apply_ite (m.finalName ++ ·), String.append_empty]
  refine markedName_of_iff ?_ _
  rw [isHostDuplicate, Bool.and_eq_true, decide_eq_true_eq, List.contains_iff_mem,
    (layoutOf_planned h).isSome_module?, (layoutOf_planned h).moduleKeys]

lemma markedName_product (h : layoutOf g target host r = .ok (.planned plan)) {p : PlannedProduct}
    (hp : p ∈ plan.products) : MarkedName (g.productAt p.key.product).name p.buildName
      (p.key.destination = .host ∧ (plan.product? ⟨p.key.product, .target⟩).isSome = true) := by
  have hname := congrArg PlannedProduct.buildName (mem_products_layoutOf h hp).2
  rw [hname]
  refine markedName_of_iff ?_ _
  rw [Bool.and_eq_true, decide_eq_true_eq, List.contains_iff_mem, isSome_product?_layoutOf h]

/-! ### Product builds -/

/-- **Product builds are complete and put together from the plan.** A product has a build for a
destination exactly if the roots lead to it there and it is neither an automatic library nor a
plugin. The parts of such a build are builds of the plan, one for each module of the product in
order. It has a binary, which lies in the build directory of its destination. Module and product
builds are called by the final name of the module or the name of the product, with a mark exactly
if they are for the host and there is a build for the target as well. -/
theorem products_complete (hg : g.IsClosed) {engine : Engine} {a : Attempt}
    (h : create g target host engine = .ok a) (hplan : a.plan = some plan) :
    (∀ k : ProductKey, (plan.product? k).isSome = true ↔
      (∃ r ∈ g.rootNodes, ReflTransGen (fun x y => y ∈ g.successors x) r (.product k)) ∧
        (g.productAt k.product).kind ≠ .automaticLibrary ∧
          (g.productAt k.product).kind ≠ .plugin) ∧
    (∀ p ∈ plan.products,
      p.parts.map (·.module) = (g.productAt p.key.product).modules ∧
      (∀ k ∈ p.parts, (plan.module? k).isSome = true) ∧
      (∃ name, p.binaryPath =
        .ok ((parametersFor target host p.key.destination).buildPath ++ "/" ++ name)) ∧
      MarkedName (g.productAt p.key.product).name p.buildName
        (p.key.destination = .host ∧ (plan.product? ⟨p.key.product, .target⟩).isSome = true)) ∧
    ∀ m ∈ plan.modules, plan.resolution.finalName m.key.module = .ok m.finalName ∧
      MarkedName m.finalName m.buildName
        (m.key.destination = .host ∧ (plan.module? ⟨m.key.module, .target⟩).isSome = true) := by
  obtain ⟨o, -, -, -, -, hlayout⟩ := create_eq_plan_iff.1 ⟨a, h, hplan⟩
  have hlaid := layoutOf_planned hlayout
  refine ⟨fun k => ?_, fun p hp => ?_, fun m hm => ⟨?_, markedName_module hlayout hm⟩⟩
  · rw [isSome_product?_layoutOf hlayout, linkedProducts, List.mem_filter,
      Graph.mem_reachedProducts hg, Graph.mem_reachedNodes hg, hasBinary_iff]
  · obtain ⟨hlinked, hplanned⟩ := mem_products_layoutOf hlayout hp
    have hparts : p.parts = (g.productAt p.key.product).modules.map
        (g.moduleKey p.key.destination) := congrArg PlannedProduct.parts hplanned
    obtain ⟨-, -, -, hpath⟩ := exists_binaryName_layoutOf hlayout hp
    refine ⟨?_, fun k hk => ?_, ⟨p.binary, ?_⟩, markedName_product hlayout hp⟩
    · rw [hparts, List.map_map]
      exact List.map_id _
    · rw [hparts] at hk
      obtain ⟨m, hm, rfl⟩ := List.mem_map.1 hk
      exact hlaid.isSome_module?.2
        (hg.mem_reachedModules_of_member (List.mem_filter.1 hlinked).1 hm)
    · rw [hpath, congrArg PlannedProduct.parameters hplanned]
      rfl
  · rw [hlaid.resolution]
    exact (hlaid.named m hm).1

/-- The library has a build for the host, which is marked since there is one for the target. -/
theorem products_complete_vended : vended.IsClosed ∧ ∃ a plan p,
    create vended (.debug .target) (.debug .host) {} = .ok a ∧ a.plan = some plan ∧
      p ∈ plan.products ∧ p.key = ⟨0, .host⟩ ∧ p.buildName = "core-tool" ∧
        ∀ k ∈ p.parts, (plan.module? k).isSome = true := by
  obtain ⟨hg, a, plan, hcreate, hplan, -⟩ := exists_plan_vended
  obtain ⟨hcomplete, hproducts, -⟩ := products_complete hg hcreate hplan
  -- The application leads to the library for the target and the macro to the one for the host.
  have htarget : (plan.product? ⟨0, .target⟩).isSome = true :=
    (hcomplete _).2 ⟨⟨.module ⟨0, .target⟩, by decide, .single (by decide)⟩, by decide, by decide⟩
  have hhost : (plan.product? ⟨0, .host⟩).isSome = true :=
    (hcomplete _).2 ⟨⟨.module ⟨1, .host⟩, by decide, .single (by decide)⟩, by decide, by decide⟩
  obtain ⟨p, hp⟩ := Option.isSome_iff_exists.1 hhost
  have hkey : p.key = ⟨0, .host⟩ := by simpa using List.find?_some hp
  have hmem : p ∈ plan.products := List.mem_of_find?_eq_some hp
  obtain ⟨-, hparts, -, hname⟩ := hproducts p hmem
  rw [hkey] at hname
  exact ⟨hg, a, plan, p, hcreate, hplan, hmem, hkey, hname.marks.2 ⟨rfl, htarget⟩, hparts⟩

end BuildPlanner.Build
