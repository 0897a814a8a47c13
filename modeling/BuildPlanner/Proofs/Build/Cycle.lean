import BuildPlanner.Proofs.Alias.Resolution
import BuildPlanner.Proofs.Build.Plan
import BuildPlanner.Proofs.Diagnostic.Engine

/-!
Dependency cycles, as they are reported.

Resolution never fails. If a cycle is reached its log ends with the report of one, and without a
cycle nothing in it is fatal, so the report of a cycle tells that there is one. Since that report
is an error, no plan is made whatever the engine was told before.
-/

namespace BuildPlanner.Build

open Alias (Outcome resolve)
open Diagnostic (Engine Record)

variable {g : Graph}

def cycleReport (g : Graph) (c : List ModuleId) : Diagnostic :=
  .dependencyCycle (c.map fun m => (g.moduleAt m).name)

lemma resolve_of_isCyclic (hg : g.IsClosed) (hc : g.IsCyclic) :
    ∃ c o before, g.IsLoop c ∧ resolve g = .ok o ∧ o.log = before ++ [cycleReport g c] ∧
      (∀ d ∈ before, d.code.isFatal = false) ∧ ∀ m, o.resolution.isReachable m = false := by
  obtain ⟨c, hloop, ho⟩ := Alias.resolve_eq_cyclic hg hc
  have hscreening : Alias.Only _
      ((g.modules.map (Alias.Screening.ofModule g)).flatMap (·.log)) :=
    Alias.Screening.only_ofModules g
  have hsurvey : Alias.Only _ (Alias.Survey.ofGraph g).notices.log :=
    Alias.Survey.only_ofWalk g _ _
  refine ⟨c, _, _, hloop, ho, rfl, fun d hd => ?_, fun m => ?_⟩
  · rcases List.mem_append.1 hd with hd | hd
    · exact hscreening.isFatal (by decide) d hd
    · exact hsurvey.isFatal (by decide) d hd
  · simp [Alias.cyclic, Alias.Resolution.isReachable, Alias.Resolution.naming?,
      List.getD_eq_getElem?_getD]

/-- What an engine that reported nothing fatal adds to its history at the report of a cycle. -/
lemma emitted_of_isCyclic {engine : Engine} (he : engine.hadFatal = false)
    {before : List Diagnostic} (hbefore : ∀ d ∈ before, d.code.isFatal = false)
    (c : List ModuleId) :
    (engine.diagnoseAll (before ++ [cycleReport g c])).emitted =
      engine.emitted ++
        (before.filterMap engine.verdict ++ [⟨cycleReport g c, .error, true⟩]) := by
  obtain ⟨hemitted, hfatal, -⟩ := Engine.diagnoseAll_spec he hbefore
  have hsplit : engine.diagnoseAll (before ++ [cycleReport g c]) =
      (engine.diagnoseAll before).diagnose (cycleReport g c) := by
    simp [Engine.diagnoseAll]
  rw [hsplit, Engine.emitted_diagnose, hemitted, Engine.verdict_of_error hfatal rfl,
    List.append_assoc]
  rfl

lemma code_of_mem_filterMap {engine : Engine} {ds : List Diagnostic} {r : Record}
    (hds : ∀ d ∈ ds, d.code.isFatal = false) (hr : r ∈ ds.filterMap engine.verdict) :
    r.diagnostic.code ≠ .dependencyCycle := by
  obtain ⟨d, hd, hverdict⟩ := List.mem_filterMap.1 hr
  intro hcode
  have hfatal := hds d hd
  rw [← Engine.diagnostic_of_verdict hverdict, hcode] at hfatal
  cases hfatal

lemma hadError_of_isCyclic (hg : g.IsClosed) (hc : g.IsCyclic) : ∃ o, resolve g = .ok o ∧
    ∀ engine : Engine, (engine.diagnoseAll o.log).hadError = true := by
  obtain ⟨c, o, before, -, hresolve, hlog, -⟩ := resolve_of_isCyclic hg hc
  have hmem : cycleReport g c ∈ o.log := by simp [hlog]
  exact ⟨o, hresolve, fun _ => Engine.hadError_diagnoseAll_of_mem hmem rfl⟩

lemma create_of_isCyclic (hg : g.IsClosed) (hc : g.IsCyclic) (target host : Parameters)
    (engine : Engine) : ∃ a, create g target host engine = .ok a ∧ a.plan = none := by
  obtain ⟨o, hresolve, herror⟩ := hadError_of_isCyclic hg hc
  exact ⟨_, create_of_hadError hresolve (herror engine), rfl⟩

lemma create_decides (hg : g.IsClosed) {target host : Parameters} {engine : Engine} {a : Attempt}
    {plan : Plan} (h : create g target host engine = .ok a) (hplan : a.plan = some plan) :
    ¬ g.IsCyclic ∧ ∃ o, resolve g = .ok o ∧ o.Decides g ∧
      (∀ d ∈ o.log, d.code.severity ≠ .error) ∧ plan.LaidOut g target host o.resolution := by
  have hac : ¬ g.IsCyclic := by
    intro hc
    obtain ⟨a', ha', hnone⟩ := create_of_isCyclic hg hc target host engine
    obtain rfl := Except.ok.inj (h.symm.trans ha')
    cases hplan.symm.trans hnone
  obtain ⟨o, ho, herror, hlaid⟩ := create_planned h hplan
  exact ⟨hac, o, ho, Alias.decides_of_resolve hg hac ho,
    fun d => Engine.severity_ne_of_hadError herror, hlaid⟩

/-- **Cycles are reported exactly when they are there.** Resolution ends in every case. An engine
that reported nothing fatal before records one report of a cycle, of a closed chain of reached
modules, if a cycle is reached, and none if not. With a cycle no module counts as reachable, and
no engine makes a plan. -/
theorem cycle_reported (hg : g.IsClosed) :
    (∃ o, resolve g = .ok o ∧
      (∀ engine : Engine, engine.hadFatal = false →
        ∃ new, (engine.diagnoseAll o.log).emitted = engine.emitted ++ new ∧
          (g.IsCyclic → ∃ c, g.IsLoop c ∧
            new.filter (·.diagnostic.code = .dependencyCycle) =
              [⟨cycleReport g c, .error, true⟩]) ∧
          (¬ g.IsCyclic → new.filter (·.diagnostic.code = .dependencyCycle) = [])) ∧
      (g.IsCyclic → ∀ m, o.resolution.isReachable m = false)) ∧
    (g.IsCyclic → ∀ (target host : Parameters) (engine : Engine),
      ∃ a, create g target host engine = .ok a ∧ a.plan = none) := by
  refine ⟨?_, fun hc => create_of_isCyclic hg hc⟩
  by_cases hc : g.IsCyclic
  · obtain ⟨c, o, before, hloop, hresolve, hlog, hbefore, hreachable⟩ := resolve_of_isCyclic hg hc
    refine ⟨o, hresolve, fun engine he => ?_, fun _ => hreachable⟩
    refine ⟨_, hlog ▸ emitted_of_isCyclic he hbefore c, fun _ => ⟨c, hloop, ?_⟩, (absurd hc ·)⟩
    have hnone : (before.filterMap engine.verdict).filter
        (·.diagnostic.code = .dependencyCycle) = [] := by
      rw [List.filter_eq_nil_iff]
      intro r hr
      simpa using code_of_mem_filterMap hbefore hr
    rw [List.filter_append, hnone]
    rfl
  · obtain ⟨o, hresolve, hdecides⟩ := Alias.resolve_of_not_isCyclic hg hc
    refine ⟨o, hresolve, fun engine he => ?_, (absurd · hc)⟩
    refine ⟨_, (Engine.diagnoseAll_spec he hdecides.calm).1, (absurd · hc), fun _ => ?_⟩
    rw [List.filter_eq_nil_iff]
    intro r hr
    simpa using code_of_mem_filterMap hdecides.calm hr

/-- Two modules of a root package that depend on each other. -/
def crossed : Graph where
  packages := [{ identity := "app", display := "app", isRoot := true, modules := [0, 1] }]
  modules := [
    { name := "Core", dependencies := [.module 1] },
    { name := "Shell", dependencies := [.module 0] }]

lemma isCyclic_crossed : crossed.IsCyclic := by
  have hroot : (0 : ModuleId) ∈ crossed.rootModules := by decide
  have hthere : crossed.Leads 0 1 := .module (by decide)
  have hback : crossed.Leads 1 0 := .module (by decide)
  exact ⟨0, Graph.isReached_root hroot, .head hthere (.single hback)⟩

theorem cycle_reported_crossed : crossed.IsClosed ∧ crossed.IsCyclic ∧
    ∃ o new c, resolve crossed = .ok o ∧ (({} : Engine).diagnoseAll o.log).emitted = new ∧
      crossed.IsLoop c ∧ new.filter (·.diagnostic.code = .dependencyCycle) =
        [⟨cycleReport crossed c, .error, true⟩] := by
  have hg : crossed.IsClosed := by decide
  obtain ⟨⟨o, hresolve, hengine, -⟩, -⟩ := cycle_reported hg
  obtain ⟨new, hnew, hcyclic, -⟩ := hengine {} rfl
  obtain ⟨c, hloop, hfilter⟩ := hcyclic isCyclic_crossed
  exact ⟨hg, isCyclic_crossed, o, new, c, hresolve, hnew, hloop, hfilter⟩

end BuildPlanner.Build
