import BuildPlanner.Proofs.Alias.Counts
import BuildPlanner.Proofs.Build.Coverage

/-!
The counts of planning, read off the plan.

The builds of a plan are those of all keys, module by module, that it has a build for, so they are
counted by destination: a module that is built twice is counted once among the host builds and once
among the target builds. As planned and reached modules are the same, what resolution counts of the
modules that it reaches is true of those that are planned.
-/

namespace BuildPlanner.Build

open Alias (resolve)
open Diagnostic (Engine)

/-! ### Definitions -/

def Plan.has (plan : Plan) (d : Destination) (m : ModuleId) : Bool := (plan.module? ⟨m, d⟩).isSome

/-- The counts are those of a plan: of its builds, of the modules that it has a build of, of those
that it has two builds of, and of those that have a build under another name than their own. -/
structure Plan.IsCounted (g : Graph) (plan : Plan) (t : Tally) : Prop where
  moduleBuilds : t.moduleBuilds = plan.modules.length
  modules_once : (plan.modules.map (·.key)).Nodup
  productBuilds : t.productBuilds = plan.products.length
  products_once : (plan.products.map (·.key)).Nodup
  modulesResolved : t.modulesResolved =
    g.moduleIds.countP fun m => plan.has .host m || plan.has .target m
  hostDuplicates : t.hostDuplicates =
    g.moduleIds.countP fun m => plan.has .host m && plan.has .target m
  renamedModules : t.renamedModules =
    g.moduleIds.countP fun m => (plan.builds m).any (·.finalName ≠ (g.moduleAt m).name)
  builds_eq : t.moduleBuilds = t.modulesResolved + t.hostDuplicates
  renamed_le : t.renamedModules ≤ t.aliasesApplied

variable {g : Graph} {target host : Parameters}

/-! ### Keys -/

lemma countP_or_add_countP_and {α : Type} (p q : α → Bool) (l : List α) :
    l.countP (fun x => p x || q x) + l.countP (fun x => p x && q x) =
      l.countP p + l.countP q := by
  induction l with
  | nil => rfl
  | cons x l ih =>
    simp only [List.countP_cons]
    cases p x <;> cases q x <;> simp <;> omega

lemma countP_moduleKeys (p : ModuleKey → Bool) : g.moduleKeys.countP p =
    g.moduleIds.countP (fun m => p ⟨m, .host⟩) + g.moduleIds.countP fun m => p ⟨m, .target⟩ := by
  rw [Graph.moduleKeys]
  induction g.moduleIds with
  | nil => rfl
  | cons m ms ih =>
    rw [List.flatMap_cons, List.countP_append, ih]
    simp only [Destination.all, List.map_cons, List.map_nil, List.countP_cons, List.countP_nil]
    omega

lemma nodup_moduleKeys (g : Graph) : g.moduleKeys.Nodup := by
  refine List.nodup_flatMap.2 ⟨fun m _ => ?_, List.nodup_range.imp fun {m n} hmn => ?_⟩
  · simp [Destination.all]
  · simp [Function.onFun, List.disjoint_left, hmn.symm]

lemma nodup_productKeys (g : Graph) : g.productKeys.Nodup := by
  refine List.nodup_flatMap.2 ⟨fun p _ => ?_, List.nodup_range.imp fun {p q} hpq => ?_⟩
  · simp [Destination.all]
  · simp [Function.onFun, List.disjoint_left, hpq.symm]

namespace Plan

variable {plan : Plan} {r : Alias.Resolution}

lemma LaidOut.modules_nodup (h : plan.LaidOut g target host r) :
    (plan.modules.map (·.key)).Nodup := by
  rw [h.moduleKeys]
  exact (nodup_moduleKeys g).filter _

lemma LaidOut.products_nodup (h : plan.LaidOut g target host r) :
    (plan.products.map (·.key)).Nodup := by
  rw [h.products, List.map_map]
  have hkey : (fun p : PlannedProduct => p.key) ∘ planProduct g target host (linkedProducts g) =
      id := rfl
  rw [hkey, List.map_id]
  exact ((nodup_productKeys g).filter _).filter _

lemma LaidOut.keys_eq (h : plan.LaidOut g target host r) : plan.modules.map (·.key) =
    g.moduleKeys.filter fun k => (plan.module? k).isSome := by
  rw [h.moduleKeys, Graph.reachedModules]
  refine List.filter_congr fun k hk => Bool.eq_iff_iff.2 ?_
  rw [h.isSome_module?, Graph.reachedModules, List.mem_filter, and_iff_right hk]

lemma LaidOut.length_modules (h : plan.LaidOut g target host r) : plan.modules.length =
    g.moduleIds.countP (plan.has .host) + g.moduleIds.countP (plan.has .target) := by
  rw [← List.length_map (·.key), h.keys_eq, ← List.countP_eq_length_filter, countP_moduleKeys]
  rfl

lemma LaidOut.countP_isHostDuplicate (h : plan.LaidOut g target host r) :
    plan.modules.countP (fun m => isHostDuplicate g.reachedModules m.key) =
      g.moduleIds.countP fun m => plan.has .host m && plan.has .target m := by
  have hmarked : isHostDuplicate (plan.modules.map (·.key)) = fun k =>
      decide (k.destination = .host) && plan.has .target k.module := by
    refine funext fun k => Bool.eq_iff_iff.2 ?_
    simp only [isHostDuplicate, has, Bool.and_eq_true, List.contains_iff_mem, isSome_module?_iff]
  have hkeys : (plan.modules.countP fun m => isHostDuplicate g.reachedModules m.key) =
      (plan.modules.map (·.key)).countP (isHostDuplicate (plan.modules.map (·.key))) := by
    rw [List.countP_map, h.moduleKeys]
    rfl
  rw [hkeys, hmarked, h.keys_eq, List.countP_filter, countP_moduleKeys]
  simp [has, Bool.and_comm]

lemma mem_builds {m : ModuleId} {b : PlannedModule} :
    b ∈ plan.builds m ↔ ∃ d, plan.module? ⟨m, d⟩ = some b := by
  simp only [builds, List.mem_filterMap]
  exact ⟨fun ⟨d, _, hb⟩ => ⟨d, hb⟩, fun ⟨d, hb⟩ => ⟨d, by cases d <;> simp [Destination.all], hb⟩⟩

lemma builds_eq_nil_iff {m : ModuleId} :
    plan.builds m = [] ↔ ∀ d, plan.module? ⟨m, d⟩ = none := by
  refine ⟨fun h d => ?_, fun h => List.filterMap_eq_nil_iff.2 fun d _ => h d⟩
  refine Option.eq_none_iff_forall_ne_some.2 fun b hb => ?_
  exact List.not_mem_nil (h ▸ mem_builds.2 ⟨d, hb⟩)

lemma has_or_has_iff {m : ModuleId} :
    (plan.has .host m || plan.has .target m) = true ↔ ∃ d, (plan.module? ⟨m, d⟩).isSome = true := by
  rw [Bool.or_eq_true]
  refine ⟨?_, ?_⟩
  · rintro (h | h)
    · exact ⟨_, h⟩
    · exact ⟨_, h⟩
  · rintro ⟨_ | _, h⟩
    · exact .inl h
    · exact .inr h

end Plan

/-! ### Counts -/

section

variable {engine : Engine} {a : Attempt} {plan : Plan}

/-- What is counted along with a plan is counted of its builds, as resolution counts none. -/
lemma tally_of_create (hg : g.IsClosed) (hac : ¬ g.IsCyclic)
    (h : create g target host engine = .ok a) (hplan : a.plan = some plan) :
    ∃ o, resolve g = .ok o ∧ a.tally = { o.tally with
      moduleBuilds := plan.modules.length
      hostDuplicates := plan.modules.countP fun m => isHostDuplicate g.reachedModules m.key
      productBuilds := plan.products.length } := by
  obtain ⟨o, ho, herror, htarget, hhost, hlayout⟩ := create_eq_plan_iff.1 ⟨a, h, hplan⟩
  obtain rfl := Except.ok.inj (h.symm.trans (create_of_layoutOf ho herror htarget hhost hlayout))
  obtain ⟨hmodules, hduplicates, hproducts⟩ := Alias.builds_uncounted hg hac ho
  refine ⟨o, ho, ?_⟩
  simp [Layout.attempt, Layout.count, Tally.add_def, hmodules, hduplicates, hproducts]

lemma planned_iff_isReached (hg : g.IsClosed) {o : Alias.Outcome} (ho : o.Decides g)
    (hlaid : plan.LaidOut g target host o.resolution) {m : ModuleId} :
    (∃ d, (plan.module? ⟨m, d⟩).isSome = true) ↔ g.IsReached m := by
  refine ⟨?_, fun hm => ?_⟩
  · rintro ⟨d, hd⟩
    obtain ⟨b, hb⟩ := Option.isSome_iff_exists.1 hd
    exact ho.isReached_of_finalName (hlaid.finalName_of_module? hb).1
  · obtain ⟨d, hd⟩ := exists_mem_reachedModules hg hm
    exact ⟨d, hlaid.isSome_module?.2 hd⟩

lemma any_builds_iff (hg : g.IsClosed) {o : Alias.Outcome} (ho : o.Decides g)
    (hlaid : plan.LaidOut g target host o.resolution) {m : ModuleId} :
    (plan.builds m).any (·.finalName ≠ (g.moduleAt m).name) = true ↔
      o.resolution.isRenamed g m = true := by
  have hname {d : Destination} {b : PlannedModule} (hb : plan.module? ⟨m, d⟩ = some b) :
      b.finalName = Alias.chosenName g (Alias.visibleFromRoots g) m := by
    have hfinal := (hlaid.finalName_of_module? hb).1
    exact Except.ok.inj
      (hfinal.symm.trans (ho.finalName_eq (ho.isReached_of_finalName hfinal)))
  rw [ho.isRenamed_iff, ← planned_iff_isReached hg ho hlaid, List.any_eq_true,
    Finset.nonempty_iff_ne_empty, ne_eq, ← Alias.chosenName_eq_own_iff]
  simp only [Plan.mem_builds, decide_eq_true_iff]
  constructor
  · rintro ⟨b, ⟨d, hb⟩, hne⟩
    rw [hname hb] at hne
    exact ⟨⟨d, Option.isSome_of_eq_some hb⟩, hne⟩
  · rintro ⟨⟨d, hd⟩, hne⟩
    obtain ⟨b, hb⟩ := Option.isSome_iff_exists.1 hd
    exact ⟨b, ⟨d, hb⟩, by rwa [hname hb]⟩

/-- **The counts agree with the plan.** -/
theorem counts_agree (hg : g.IsClosed) (h : create g target host engine = .ok a)
    (hplan : a.plan = some plan) : plan.IsCounted g a.tally := by
  obtain ⟨hac, o, ho, hdecides, -, hlaid⟩ := create_decides hg h hplan
  obtain ⟨o', ho', htally⟩ := tally_of_create hg hac h hplan
  obtain rfl := Except.ok.inj (ho.symm.trans ho')
  obtain ⟨hresolved, hrenamed, hle⟩ := Alias.resolution_counts hg hac ho
  have hmodules : a.tally.modulesResolved =
      g.moduleIds.countP fun m => plan.has .host m || plan.has .target m := by
    rw [htally]
    refine hresolved.trans (List.countP_congr fun m _ => ?_)
    rw [hdecides.isReachable_iff, ← planned_iff_isReached hg hdecides hlaid, Plan.has_or_has_iff]
  have hduplicates : a.tally.hostDuplicates =
      g.moduleIds.countP fun m => plan.has .host m && plan.has .target m := by
    rw [htally]
    exact hlaid.countP_isHostDuplicate
  refine ⟨by rw [htally], hlaid.modules_nodup, by rw [htally], hlaid.products_nodup,
    hmodules, hduplicates, ?_, ?_, by rwa [htally]⟩
  · rw [htally]
    refine hrenamed.trans (List.countP_congr fun m _ => ?_)
    exact (any_builds_iff hg hdecides hlaid).symm
  · rw [hmodules, hduplicates, countP_or_add_countP_and, ← hlaid.length_modules, htally]

end

/-- An application and its macro that both use a library, which the application asks for under
another name. -/
def doubled : Graph where
  packages := [
    { identity := "app", display := "app", isRoot := true, modules := [0, 1], products := [0] },
    { identity := "lib", display := "lib", modules := [2], products := [1] }]
  modules := [
    { name := "App", kind := .executable,
      dependencies := [.module 1, .product 1 [⟨"Utils", "FooUtils"⟩]] },
    { name := "Macros", kind := .codeMacro, dependencies := [.product 1 []] },
    { name := "Utils", owner := 1 }]
  products := [
    { name := "app", kind := .executable, modules := [0] },
    { name := "Lib", owner := 1, modules := [2] }]

/-- The library has two builds under one name that is not its own. -/
theorem counts_agree_doubled : doubled.IsClosed ∧ ∃ a plan,
    create doubled (.debug .target) (.debug .host) {} = .ok a ∧ a.plan = some plan ∧
      plan.IsCounted doubled a.tally ∧ a.tally = {
        modulesResolved := 3, aliasesApplied := 1, renamedModules := 1, moduleBuilds := 4,
        hostDuplicates := 1, productBuilds := 1 } := by
  have hg : doubled.IsClosed := by decide
  obtain ⟨a, plan, h, hplan, -⟩ : ∃ a plan, create doubled (.debug .target) (.debug .host) {} =
      .ok a ∧ a.plan = some plan ∧ _ := exists_plan (fun _ => true) (by decide +kernel)
  have htally : (create doubled (.debug .target) (.debug .host) {}).toOption.map (·.tally) =
      some ⟨3, 1, 1, 4, 1, 1⟩ := by decide +kernel
  rw [Fault.toOption_eq_some.2 h, Option.map_some] at htally
  exact ⟨hg, a, plan, h, hplan, counts_agree hg h hplan, Option.some.inj htally⟩

end BuildPlanner.Build
