import BuildPlanner.Proofs.Build.Cycle
import BuildPlanner.Proofs.Build.Destination
import BuildPlanner.Proofs.Build.Layout
import BuildPlanner.Proofs.Graph.Ownership

/-!
What is built is what resolution reaches.

Planning starts from the root products too, and resolution from the root modules alone. As a
product has modules of its own package only, the modules of a root product are root modules, so
both reach the same modules. Every module that is to be built therefore has a final name, and
creation ends in every case.
-/

namespace BuildPlanner.Build

open Alias (resolve)
open Diagnostic (Engine)

variable {g : Graph} {target host : Parameters}

/-! ### Paths and steps between modules -/

lemma mem_rootModules_of_mem_product (hfiled : g.IsFiled) {q : ProductId}
    (hq : q ∈ g.rootProducts) {m : ModuleId} (hm : m ∈ (g.productAt q).modules) :
    m ∈ g.rootModules := by
  obtain ⟨p, hp, hroot, hlisted⟩ := Graph.mem_rootProducts_iff.1 hq
  obtain ⟨-, howner⟩ := (hfiled.products.mem_iff p q).1 hlisted
  obtain ⟨hlt, hmember⟩ := hfiled.members q m hm
  exact Graph.mem_rootModules_iff.2
    ⟨p, hp, hroot, (hfiled.modules.mem_iff p m).2 ⟨hlt, hmember.trans howner⟩⟩

/-- What is reached by way of a part: the module itself, or the modules of the product. -/
def Part.IsReached (g : Graph) : Part → Prop
  | module m => g.IsReached m
  | product q => ∀ m ∈ (g.productAt q).modules, g.IsReached m

lemma isReached_of_path (hfiled : g.IsFiled) {xs : List Part} {x : Part} (h : g.Path xs x) :
    x.IsReached g := by
  induction h with
  | @root x h =>
    cases x with
    | module m => exact Graph.isReached_root h
    | product q =>
      intro m hm
      exact Graph.isReached_root (mem_rootModules_of_mem_product hfiled h hm)
  | snoc _ huses ih =>
    cases huses with
    | member hm => exact ih _ hm
    | module hd => exact Graph.IsReached.step ih (.module hd)
    | product hd => exact fun m hm => Graph.IsReached.step ih (.product hd hm)

lemma exists_path_of_isReached {m : ModuleId} (h : g.IsReached m) :
    ∃ xs, g.Path xs (.module m) := by
  refine h.induction (P := fun n => ∃ xs, g.Path xs (.module n)) (fun r hr => ⟨_, .root hr⟩) ?_
  rintro m n ⟨xs, hpath⟩ hn
  cases hn with
  | module hd => exact ⟨_, hpath.snoc (.module hd)⟩
  | product hd hn => exact ⟨_, (hpath.snoc (.product hd)).snoc (.member hn)⟩

/-- Every path plans its end for some destination, whatever it passes. -/
lemma exists_mem_reachedModules (hg : g.IsClosed) {m : ModuleId} (hm : g.IsReached m) :
    ∃ d, ⟨m, d⟩ ∈ g.reachedModules := by
  simp only [Graph.mem_reachedModules_iff_isDue hg]
  obtain ⟨xs, hpath⟩ := exists_path_of_isReached hm
  by_cases hforced : ∃ x ∈ xs, g.IsHostForced x
  · exact ⟨.host, xs, hpath, by simpa using hforced⟩
  · exact ⟨.target, xs, hpath, by simpa using hforced⟩

lemma exists_mem_reachedModules_iff (hg : g.IsClosed) (hfiled : g.IsFiled) {m : ModuleId} :
    (∃ d, ⟨m, d⟩ ∈ g.reachedModules) ↔ g.IsReached m := by
  refine ⟨?_, exists_mem_reachedModules hg⟩
  simp only [Graph.mem_reachedModules_iff_isDue hg]
  rintro ⟨d, xs, hpath, -⟩
  exact isReached_of_path hfiled hpath

/-! ### Creation -/

lemma exists_create {o : Alias.Outcome} (ho : resolve g = .ok o)
    (htarget : target.destination = .target) (hhost : host.destination = .host)
    (h : ∀ k ∈ g.reachedModules, ∃ name, o.resolution.finalName k.module = .ok name)
    (engine : Engine) : ∃ a, create g target host engine = .ok a := by
  obtain ⟨layout, hlayout⟩ : ∃ layout, layoutOf g target host o.resolution = .ok layout :=
    exists_layoutOf h
  cases herror : (engine.diagnoseAll o.log).hadError with
  | true => exact ⟨_, create_of_hadError ho herror⟩
  | false => exact ⟨_, create_of_layoutOf ho herror htarget hhost hlayout⟩

/-- Creation from an assembled graph ends without a plan if resolution leaves an error, and else
with what a layout of the builds comes to. -/
lemma exists_create_eq (hg : g.Assembled) (htarget : target.destination = .target)
    (hhost : host.destination = .host) : ∃ o, resolve g = .ok o ∧ ∀ engine : Engine,
      (engine.diagnoseAll o.log).hadError = true ∧
        create g target host engine = .ok ⟨none, engine.diagnoseAll o.log, o.tally⟩ ∨
      (engine.diagnoseAll o.log).hadError = false ∧ o.Decides g ∧
        ∃ layout, layoutOf g target host o.resolution = .ok layout ∧
          create g target host engine =
            .ok (layout.attempt (engine.diagnoseAll o.log) (layout.count g o.tally)) := by
  have hclosed := hg.isClosed
  by_cases hc : g.IsCyclic
  · obtain ⟨o, hresolve, herror⟩ := hadError_of_isCyclic hclosed hc
    exact ⟨o, hresolve, fun engine => .inl
      ⟨herror engine, create_of_hadError hresolve (herror engine)⟩⟩
  · obtain ⟨o, hresolve, hdecides⟩ := Alias.resolve_of_not_isCyclic hclosed hc
    obtain ⟨layout, hlayout⟩ : ∃ layout, layoutOf g target host o.resolution = .ok layout :=
      exists_layoutOf fun k hk => ⟨_, hdecides.finalName_eq
        ((exists_mem_reachedModules_iff hclosed hg.isFiled).1 ⟨k.destination, hk⟩)⟩
    refine ⟨o, hresolve, fun engine => ?_⟩
    cases herror : (engine.diagnoseAll o.log).hadError with
    | true => exact .inl ⟨rfl, create_of_hadError hresolve herror⟩
    | false =>
      exact .inr ⟨rfl, hdecides, layout, hlayout,
        create_of_layoutOf hresolve herror htarget hhost hlayout⟩

/-- **Planning and resolution reach the same modules.** Of an assembled graph, creation ends
without a fault whatever the engine was told before. If the engine counts nothing that resolution
reports as an error, the modules to be built for some destination are those that resolution
reaches; so are the modules of every plan. -/
theorem planned_iff_reachable (hg : g.Assembled) (htarget : target.destination = .target)
    (hhost : host.destination = .host) (engine : Engine) :
    ∃ o a, resolve g = .ok o ∧ create g target host engine = .ok a ∧
      ((∀ d ∈ o.log, engine.policy.countsAsError d = false) →
        ∀ m, (∃ d, ⟨m, d⟩ ∈ g.reachedModules) ↔ o.resolution.isReachable m = true) ∧
      ∀ plan, a.plan = some plan → plan.resolution = o.resolution ∧
        ∀ m, (∃ d, (plan.module? ⟨m, d⟩).isSome = true) ↔ o.resolution.isReachable m = true := by
  have hclosed := hg.isClosed
  have hcovered {m : ModuleId} := exists_mem_reachedModules_iff hclosed hg.isFiled (m := m)
  -- With a cycle resolution reaches nothing, but its report counts as an error with every engine.
  by_cases hc : g.IsCyclic
  · obtain ⟨c, o, before, -, hresolve, hlog, -, -⟩ := resolve_of_isCyclic hclosed hc
    obtain ⟨a, ha, hnone⟩ := create_of_isCyclic hclosed hc target host engine
    refine ⟨o, a, hresolve, ha, fun hcalm => ?_, fun plan hplan => ?_⟩
    · have herror : engine.policy.countsAsError (cycleReport g c) = true := rfl
      rw [hcalm (cycleReport g c) (by simp [hlog])] at herror
      cases herror
    · cases hnone.symm.trans hplan
  · obtain ⟨o, hresolve, hdecides⟩ := Alias.resolve_of_not_isCyclic hclosed hc
    have hnamed : ∀ k ∈ g.reachedModules, ∃ name, o.resolution.finalName k.module = .ok name :=
      fun k hk => ⟨_, hdecides.finalName_eq (hcovered.1 ⟨k.destination, hk⟩)⟩
    obtain ⟨a, ha⟩ := exists_create hresolve htarget hhost hnamed engine
    refine ⟨o, a, hresolve, ha, fun _ m => hcovered.trans hdecides.isReachable_iff.symm,
      fun plan hplan => ?_⟩
    obtain ⟨o', ho', -, hlaid⟩ := create_planned ha hplan
    obtain rfl := Except.ok.inj (hresolve.symm.trans ho')
    refine ⟨hlaid.resolution, fun m => ?_⟩
    simp only [hlaid.isSome_module?]
    exact hcovered.trans hdecides.isReachable_iff.symm

lemma assembled_shared : shared.Assembled := by
  have hpackage := @Graph.Assembled.package _ _ "app" "" .current true .empty rfl
  have happ := @Graph.Assembled.module _ _ 0 "App" .executable {} hpackage rfl
  have hmacros := @Graph.Assembled.module _ _ 0 "Macros" .codeMacro {} happ rfl
  have hcore := @Graph.Assembled.module _ _ 0 "Core" .library {} hmacros rfl
  have hproduct := @Graph.Assembled.product _ _ 0 "app" .executable [0] hcore rfl
  have huses := @Graph.Assembled.dependency _ _ 0 (.module 1) hproduct (by decide) rfl
  have hshares := @Graph.Assembled.dependency _ _ 0 (.module 2) huses (by decide) rfl
  exact @Graph.Assembled.dependency _ _ 1 (.module 2) hshares (by decide) rfl

/-- The library that the macro shares with the application is reached, and the plan has a build of
it. -/
theorem planned_iff_reachable_shared : shared.Assembled ∧ ∃ o a plan,
    resolve shared = .ok o ∧ create shared (.debug .target) (.debug .host) {} = .ok a ∧
      o.log = [] ∧ a.plan = some plan ∧ plan.resolution = o.resolution ∧
        o.resolution.isReachable 2 = true ∧ (∃ d, ⟨2, d⟩ ∈ shared.reachedModules) ∧
          ∃ d, (plan.module? ⟨2, d⟩).isSome = true := by
  obtain ⟨o, a, hresolve, hcreate, hcovered, hplans⟩ :=
    @planned_iff_reachable shared (.debug .target) (.debug .host) assembled_shared rfl rfl {}
  obtain ⟨a', plan, hcreate', hplan, -⟩ : ∃ a plan,
      create shared (.debug .target) (.debug .host) {} = .ok a ∧ a.plan = some plan ∧ _ :=
    exists_plan (fun _ => true) (by decide +kernel)
  obtain rfl := Except.ok.inj (hcreate'.symm.trans hcreate)
  obtain ⟨hresolution, hplanned⟩ := hplans plan hplan
  have hoption : (resolve shared).toOption = some o := Fault.toOption_eq_some.2 hresolve
  have hcalm : (resolve shared).toOption.map (·.log) = some [] := by decide +kernel
  have hlog : o.log = [] := by simpa [hoption] using hcalm
  have hreached : (resolve shared).toOption.map (·.resolution.isReachable 2) = some true := by
    decide +kernel
  have hreachable : o.resolution.isReachable 2 = true := by simpa [hoption] using hreached
  exact ⟨assembled_shared, o, a', plan, hresolve, hcreate, hlog, hplan, hresolution, hreachable,
    (hcovered (by simp [hlog]) 2).2 hreachable, (hplanned 2).2 hreachable⟩

end BuildPlanner.Build
