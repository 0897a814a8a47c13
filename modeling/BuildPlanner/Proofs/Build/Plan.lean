import BuildPlanner.Build.Plan
import BuildPlanner.Proofs.Tally

/-!
What a plan tells about its creation.

A plan comes from a resolution that left no error, and it has a build for every module and product
that is reached, in their order, named and given aliases by the resolution.
-/

namespace BuildPlanner.Build

open Alias (Resolution resolve)
open Diagnostic (Engine)

variable {g : Graph} {target host : Parameters}

/-! ### Layouts and their counts -/

def linkedProducts (g : Graph) : List ProductKey :=
  g.reachedProducts.filter fun k => (g.productAt k.product).kind.hasBinary

/-- What a layout makes of module builds that have their names. -/
def Layout.ofModules (g : Graph) (target host : Parameters) (r : Resolution)
    (ms : List PlannedModule) : Layout :=
  match firstClash? [] ms with
  | some (e, m) => .clash (clashReport g e m)
  | none => .planned {
      target, host
      resolution := r
      modules := ms.map (markModule g.reachedModules)
      products := (linkedProducts g).map (planProduct g target host (linkedProducts g))
      roots := g.rootModules.map (g.moduleKey .target) }

/-- The layout of a graph, without the counts that are kept with it. -/
def layoutOf (g : Graph) (target host : Parameters) (r : Resolution) : Except Fault Layout :=
  (g.reachedModules.mapM (planModule target host r)).map (.ofModules g target host r)

/-- The counts after a layout: its module builds, the marked ones among them, and its products. A
clash ends the count behind the module builds. -/
def Layout.count (g : Graph) (t : Tally) : Layout → Tally
  | planned plan => t + {
      moduleBuilds := plan.modules.length
      hostDuplicates := plan.modules.countP fun m => isHostDuplicate g.reachedModules m.key
      productBuilds := plan.products.length }
  | clash _ => t + { moduleBuilds := g.reachedModules.length }

@[simp] lemma key_markModule (keys : List ModuleKey) (m : PlannedModule) :
    (markModule keys m).key = m.key := by
  unfold markModule
  split <;> rfl

/-- **The counts that are kept with a layout are those of its builds.** -/
theorem run_layOut (r : Resolution) (t : Tally) : (layOut g target host r).run t =
    (layoutOf g target host r).map fun l => (l, l.count g t) := by
  rw [layOut, layoutOf, StateT.run_bind, run_countEach]
  cases hms : g.reachedModules.mapM (planModule target host r) with
  | error f => rfl
  | ok ms =>
    have hlength := (Fault.mapM_eq_ok_iff.1 hms).length_eq
    change StateT.run _ (g.reachedModules.foldl _ t) = Except.ok (_, Layout.count g t _)
    unfold Layout.ofModules
    rw [Tally.foldl_add]
    cases firstClash? [] ms with
    | some c => simp [Layout.count]
    | none =>
      simp only [StateT.run_bind, run_countEach_ok, Tally.foldl_add]
      refine congrArg (fun t => Except.ok (_, t)) ?_
      simp [Layout.count, Tally.add_def, Tally.sum_toNat, linkedProducts, hlength,
        List.countP_map, Function.comp_def]

lemma run_layOut_eq_ok_iff {r : Resolution} {t t' : Tally} {layout : Layout} :
    (layOut g target host r).run t = .ok (layout, t') ↔
      layoutOf g target host r = .ok layout ∧ layout.count g t = t' := by
  rw [run_layOut, Fault.map_eq_ok]
  refine ⟨?_, ?_⟩
  · rintro ⟨l, hl, h⟩
    obtain ⟨rfl, rfl⟩ := Prod.mk.inj h
    exact ⟨hl, rfl⟩
  · rintro ⟨hl, rfl⟩
    exact ⟨layout, hl, rfl⟩

lemma layoutOf_eq_planned_iff {r : Resolution} {plan : Plan} :
    layoutOf g target host r = .ok (.planned plan) ↔
      ∃ ms, g.reachedModules.mapM (planModule target host r) = .ok ms ∧ firstClash? [] ms = none ∧
        plan = {
          target, host
          resolution := r
          modules := ms.map (markModule g.reachedModules)
          products := (linkedProducts g).map (planProduct g target host (linkedProducts g))
          roots := g.rootModules.map (g.moduleKey .target) } := by
  rw [layoutOf, Fault.map_eq_ok]
  refine exists_congr fun ms => and_congr_right fun _ => ?_
  rw [Layout.ofModules]
  cases hclash : firstClash? [] ms with
  | some c => simp
  | none => simp [eq_comm]

/-- What holds of a plan that was laid out for a resolution. -/
structure Plan.LaidOut (g : Graph) (target host : Parameters) (r : Resolution) (plan : Plan) :
    Prop where
  resolution : plan.resolution = r
  moduleKeys : plan.modules.map (·.key) = g.reachedModules
  named : ∀ m ∈ plan.modules, r.finalName m.key.module = .ok m.finalName ∧
    m.aliases = r.aliases m.key.module
  products : plan.products =
    (linkedProducts g).map (planProduct g target host (linkedProducts g))

lemma layoutOf_planned {r : Resolution} {plan : Plan}
    (h : layoutOf g target host r = .ok (.planned plan)) : plan.LaidOut g target host r := by
  obtain ⟨modules, hmodules, -, rfl⟩ := layoutOf_eq_planned_iff.1 h
  have hplanned : List.Forall₂ (fun m k => (r.finalName m.key.module = .ok m.finalName ∧
      m.aliases = r.aliases m.key.module) ∧ m.key = k) modules g.reachedModules := by
    refine ((Fault.mapM_eq_ok_iff.1 hmodules).imp fun k m hm => ?_).flip
    obtain ⟨name, hname, hm⟩ := Fault.bind_eq_ok.1 hm
    obtain rfl := Fault.pure_eq_ok.1 hm
    exact ⟨⟨hname, rfl⟩, rfl⟩
  obtain ⟨hnamed, hkeys⟩ := (List.forall₂_and_left _ _).1 hplanned
  refine ⟨rfl, ?_, fun m hm => ?_, rfl⟩
  · rw [List.map_map, ← List.forall₂_eq_eq_eq, List.forall₂_map_left_iff]
    simpa using hkeys
  · obtain ⟨m, hm', rfl⟩ := List.mem_map.1 hm
    unfold markModule
    split <;> exact hnamed m hm'

/-- What an attempt comes to with a layout and the counts after it. -/
def Layout.attempt (engine : Engine) (t : Tally) : Layout → Attempt
  | planned plan => ⟨some plan, engine, t⟩
  | clash report => ⟨none, engine.diagnose report, t⟩

section

variable {o : Alias.Outcome} {engine : Engine}

lemma create_of_hadError (ho : resolve g = .ok o)
    (herror : (engine.diagnoseAll o.log).hadError = true) :
    create g target host engine = .ok ⟨none, engine.diagnoseAll o.log, o.tally⟩ := by
  simp only [create, Fault.bind_eq_ok]
  exact ⟨o, ho, by simp only [herror, if_true]; rfl⟩

lemma create_of_layoutOf (ho : resolve g = .ok o)
    (herror : (engine.diagnoseAll o.log).hadError = false)
    (htarget : target.destination = .target) (hhost : host.destination = .host) {layout : Layout}
    (hlayout : layoutOf g target host o.resolution = .ok layout) :
    create g target host engine =
      .ok (layout.attempt (engine.diagnoseAll o.log) (layout.count g o.tally)) := by
  have hrun := run_layOut_eq_ok_iff.2 ⟨hlayout, Eq.refl (layout.count g o.tally)⟩
  simp only [create, Fault.bind_eq_ok]
  cases layout with
  | planned plan => exact ⟨o, ho, by simp [herror, htarget, hhost, hrun]; rfl⟩
  | clash report => exact ⟨o, ho, by simp [herror, htarget, hhost, hrun]; rfl⟩

end

/-- **A plan is a layout for a resolution whose reports left the engine without an error.** -/
theorem create_eq_plan_iff {engine : Engine} {plan : Plan} :
    (∃ a, create g target host engine = .ok a ∧ a.plan = some plan) ↔
      ∃ o, resolve g = .ok o ∧ (engine.diagnoseAll o.log).hadError = false ∧
        target.destination = .target ∧ host.destination = .host ∧
          layoutOf g target host o.resolution = .ok (.planned plan) := by
  refine ⟨?_, ?_⟩
  · rintro ⟨a, h, hplan⟩
    obtain ⟨o, ho, h⟩ := Fault.bind_eq_ok.1 h
    refine ⟨o, ho, ?_⟩
    dsimp only at h
    split at h
    · obtain rfl := Fault.pure_eq_ok.1 h
      -- An error was reported: there is no plan.
      cases hplan
    · next herror =>
      split at h
      · simp at h
      · next htarget =>
        split at h
        · simp at h
        · next hhost =>
          obtain ⟨⟨layout, t⟩, hrun, h⟩ := Fault.bind_eq_ok.1 h
          obtain ⟨hlayout, -⟩ := run_layOut_eq_ok_iff.1 hrun
          cases layout with
          | planned p =>
            obtain rfl := Fault.pure_eq_ok.1 h
            obtain rfl := Option.some.inj hplan
            exact ⟨by simpa using herror, not_not.1 htarget, not_not.1 hhost, hlayout⟩
          | clash report =>
            obtain rfl := Fault.pure_eq_ok.1 h
            cases hplan
  · rintro ⟨o, ho, herror, htarget, hhost, hlayout⟩
    exact ⟨_, create_of_layoutOf ho herror htarget hhost hlayout, rfl⟩

lemma create_eq_plan_iff_of_resolve {o : Alias.Outcome} (ho : resolve g = .ok o)
    (target host : Parameters) (engine : Engine) (plan : Plan) :
    (∃ a, create g target host engine = .ok a ∧ a.plan = some plan) ↔
      (engine.diagnoseAll o.log).hadError = false ∧ target.destination = .target ∧
        host.destination = .host ∧ layoutOf g target host o.resolution = .ok (.planned plan) := by
  rw [create_eq_plan_iff]
  refine ⟨?_, fun h => ⟨o, ho, h⟩⟩
  rintro ⟨o', ho', h⟩
  obtain rfl := Except.ok.inj (ho'.symm.trans ho)
  exact h

lemma create_planned {engine : Engine} {a : Attempt} {plan : Plan}
    (h : create g target host engine = .ok a) (hplan : a.plan = some plan) :
    ∃ o, resolve g = .ok o ∧ (engine.diagnoseAll o.log).hadError = false ∧
      plan.LaidOut g target host o.resolution := by
  obtain ⟨o, ho, herror, -, -, hlayout⟩ := create_eq_plan_iff.1 ⟨a, h, hplan⟩
  exact ⟨o, ho, herror, layoutOf_planned hlayout⟩

lemma exists_plan {engine : Engine} (p : Plan → Bool)
    (h : ((create g target host engine).toOption.bind (·.plan)).any p = true) :
    ∃ a plan, create g target host engine = .ok a ∧ a.plan = some plan ∧ p plan = true := by
  obtain ⟨plan, hplan, hp⟩ := (Option.any_eq_true _ _).1 h
  obtain ⟨a, ha, hplan⟩ := Option.bind_eq_some_iff.1 hplan
  exact ⟨a, plan, Fault.toOption_eq_some.1 ha, hplan, hp⟩

def Parameters.debug (d : Destination) : Parameters where
  destination := d
  triple := "x86_64-unknown-linux-gnu"
  configuration := .debug
  scratch := ".build"

namespace Plan

variable {plan : Plan} {k : ModuleKey}

lemma isSome_module?_iff :
    (plan.module? k).isSome = true ↔ k ∈ plan.modules.map (·.key) := by
  simp [module?]

lemma key_of_module? {m : PlannedModule} (h : plan.module? k = some m) : m.key = k := by
  simpa using List.find?_some h

end Plan

namespace Plan.LaidOut

variable {r : Resolution} {plan : Plan}

lemma isSome_module? (h : plan.LaidOut g target host r) {k : ModuleKey} :
    (plan.module? k).isSome = true ↔ k ∈ g.reachedModules := by
  rw [isSome_module?_iff, h.moduleKeys]

lemma finalName_of_module? (h : plan.LaidOut g target host r) {k : ModuleKey} {m : PlannedModule}
    (hm : plan.module? k = some m) :
    r.finalName k.module = .ok m.finalName ∧ m.aliases = r.aliases k.module := by
  have hmem := List.mem_of_find?_eq_some hm
  rw [← key_of_module? hm]
  exact h.named m hmem

end Plan.LaidOut

end BuildPlanner.Build
