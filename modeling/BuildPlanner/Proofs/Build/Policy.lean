import BuildPlanner.Proofs.Build.Clash

/-!
What the policy of an engine changes about planning, and what it does not.

Resolution does not know the engine, so its reports and the layout of the builds are the same under
every policy. A policy only decides whether the reports count as errors. Those of error severity
always do, so the plain policy lets a plan through whenever any policy does.
-/

namespace BuildPlanner.Build

open Alias (resolve)
open Diagnostic (Engine Policy)

variable {g : Graph} {target host : Parameters}

lemma isSome_attempt_iff (hg : g.IsClosed) {r : Alias.Resolution} {layout : Layout}
    (hlayout : layoutOf g target host r = .ok layout) {engine : Engine}
    (he : engine.hadError = false) (t : Tally) :
    (layout.attempt engine t).plan.isSome = true ↔
      (layout.attempt engine t).engine.hadError = false := by
  cases layout with
  | planned plan => exact iff_of_true rfl he
  | clash report =>
    obtain ⟨d, name, m, m', -, rfl⟩ := exists_clash_of_layoutOf hg hlayout
    have herror : (engine.diagnose (conflictReport g d name m m')).hadError = true :=
      Engine.hadError_diagnose_of_error rfl
    simp [Layout.attempt, herror]

/-- Creation ends for every engine, with a plan exactly if it leaves no error. With a plan, the
engine was told what resolution reports and no more. -/
lemma exists_create_isSome_iff (hg : g.Assembled) (htarget : target.destination = .target)
    (hhost : host.destination = .host) : ∃ o, resolve g = .ok o ∧ ∀ engine : Engine,
      ∃ a, create g target host engine = .ok a ∧
        (a.plan.isSome = true ↔ a.engine.hadError = false) ∧
        (a.plan.isSome = true → a.engine = engine.diagnoseAll o.log) := by
  obtain ⟨o, ho, hcreate⟩ := exists_create_eq hg htarget hhost
  refine ⟨o, ho, fun engine => ?_⟩
  rcases hcreate engine with ⟨herror, ha⟩ | ⟨herror, -, layout, hlayout, ha⟩
  · exact ⟨_, ha, by simp [herror], by simp⟩
  · refine ⟨_, ha, isSome_attempt_iff hg.isClosed hlayout herror _, fun hplan => ?_⟩
    cases layout with
    | planned plan => rfl
    | clash report => cases hplan

section

variable {o : Alias.Outcome} {engine : Engine} {a : Attempt}

lemma plan_eq_some_iff (ho : resolve g = .ok o) (htarget : target.destination = .target)
    (hhost : host.destination = .host) (ha : create g target host engine = .ok a) {plan : Plan} :
    a.plan = some plan ↔ (engine.diagnoseAll o.log).hadError = false ∧
      layoutOf g target host o.resolution = .ok (.planned plan) := by
  have hcreate := create_eq_plan_iff_of_resolve ho target host engine plan
  simpa [ha, htarget, hhost] using hcreate

lemma isSome_plan_iff (ho : resolve g = .ok o) (htarget : target.destination = .target)
    (hhost : host.destination = .host) (ha : create g target host engine = .ok a) :
    a.plan.isSome = true ↔ (engine.diagnoseAll o.log).hadError = false ∧
      ∃ plan, layoutOf g target host o.resolution = .ok (.planned plan) := by
  rw [Option.isSome_iff_exists, ← exists_and_left]
  exact exists_congr fun plan => plan_eq_some_iff ho htarget hhost ha

end

/-- The reports leave an engine without an error exactly if they leave the plain one without, and
are none or their warnings do not count. -/
lemma hadError_diagnoseAll_policy {plain engine : Engine} (hplain : plain.policy = {})
    (hplainError : plain.hadError = false) (hengineError : engine.hadError = false)
    (ds : List Diagnostic) : (engine.diagnoseAll ds).hadError = false ↔
      (plain.diagnoseAll ds).hadError = false ∧ (engine.policy.warningsAsErrors = false ∨
        engine.policy.suppressWarnings = true ∨ ds = []) := by
  rw [Engine.hadError_diagnoseAll_eq_false_iff hengineError,
    Engine.hadError_diagnoseAll_eq_false_iff hplainError, hplain]
  exact Policy.forall_countsAsError_iff

/-- **Policies never change what is planned.** From an assembled graph, creation gives a plan
exactly if the engine has no error afterwards. For engines without earlier errors, a policy gives a
plan exactly if the plain one does and, under it, nothing is reported or warnings do not count as
errors. The two plans are then the same. -/
theorem create_policy (hg : g.Assembled) (htarget : target.destination = .target)
    (hhost : host.destination = .host) :
    (∀ engine : Engine, ∃ a, create g target host engine = .ok a ∧
      (a.plan.isSome = true ↔ a.engine.hadError = false)) ∧
    ∀ plain engine : Engine, plain.policy = {} → plain.hadError = false →
      engine.hadError = false → ∃ a b, create g target host plain = .ok a ∧
        create g target host engine = .ok b ∧
        (b.plan.isSome = true ↔ a.plan.isSome = true ∧
          (engine.policy.warningsAsErrors = false ∨ engine.policy.suppressWarnings = true ∨
            a.engine.emitted = plain.emitted)) ∧
        ∀ p q, a.plan = some p → b.plan = some q → q = p := by
  obtain ⟨o, ho, hcreate⟩ := exists_create_isSome_iff hg htarget hhost
  refine ⟨fun engine => (hcreate engine).imp fun a ha => ⟨ha.1, ha.2.1⟩, ?_⟩
  intro plain engine hplain hplainError hengineError
  obtain ⟨a, ha, -, haengine⟩ := hcreate plain
  obtain ⟨b, hb, -, -⟩ := hcreate engine
  refine ⟨a, b, ha, hb, ?_, fun p q hp hq => ?_⟩
  · -- Where the plain engine has a plan, its history tells whether anything was reported.
    have hemitted (hplan : a.plan.isSome = true) :
        a.engine.emitted = plain.emitted ↔ o.log = [] := by
      obtain ⟨hcalm, -⟩ := (isSome_plan_iff ho htarget hhost ha).1 hplan
      rw [haengine hplan]
      exact Engine.emitted_diagnoseAll_eq_iff hplainError hplain fun _ =>
        Engine.severity_ne_of_hadError hcalm
    rw [isSome_plan_iff ho htarget hhost hb,
      hadError_diagnoseAll_policy hplain hplainError hengineError, and_right_comm,
      ← isSome_plan_iff ho htarget hhost ha]
    exact and_congr_right fun hplan => by rw [hemitted hplan]
  · obtain ⟨-, hlayout⟩ := (plan_eq_some_iff ho htarget hhost ha).1 hp
    obtain ⟨-, hlayout'⟩ := (plan_eq_some_iff ho htarget hhost hb).1 hq
    simpa using hlayout'.symm.trans hlayout

/-- An application with an alias for a module that the library does not have. -/
def misaliased : Graph where
  packages := [
    { identity := "app", display := "app", isRoot := true, modules := [0] },
    { identity := "lib", display := "lib", modules := [1], products := [0] }]
  modules := [
    { name := "App", dependencies := [.product 0 [⟨"Utils", "LibUtils"⟩]] },
    { name := "Core", owner := 1 }]
  products := [{ name := "Lib", owner := 1, modules := [1] }]

lemma assembled_misaliased : misaliased.Assembled := by
  have happ := @Graph.Assembled.package _ _ "app" "" .current true .empty rfl
  have hlib := @Graph.Assembled.package _ _ "lib" "" .current false happ rfl
  have hroot := @Graph.Assembled.module _ _ 0 "App" .library {} hlib rfl
  have hcore := @Graph.Assembled.module _ _ 1 "Core" .library {} hroot rfl
  have hproduct := @Graph.Assembled.product _ _ 1 "Lib" .automaticLibrary [1] hcore rfl
  exact @Graph.Assembled.dependency _ _ 0 (.product 0 [⟨"Utils", "LibUtils"⟩]) hproduct
    (by decide) rfl

/-- The alias that is not applied is a warning, which an engine may count as an error. -/
theorem create_policy_misaliased : misaliased.Assembled ∧ ∃ a b,
    create misaliased (.debug .target) (.debug .host) {} = .ok a ∧
      create misaliased (.debug .target) (.debug .host)
        { policy := { warningsAsErrors := true } } = .ok b ∧
      a.plan.isSome = true ∧ a.engine.emitted ≠ [] ∧ b.plan = none := by
  obtain ⟨-, hpolicy⟩ := @create_policy misaliased (.debug .target) (.debug .host)
    assembled_misaliased rfl rfl
  obtain ⟨a, b, ha, hb, hplan, -⟩ := hpolicy {} { policy := { warningsAsErrors := true } } rfl rfl
    rfl
  have hoption : (create misaliased (.debug .target) (.debug .host) {}).toOption = some a :=
    Fault.toOption_eq_some.2 ha
  have hrun : (create misaliased (.debug .target) (.debug .host) {}).toOption.any (fun a =>
      a.plan.isSome && !a.engine.emitted.isEmpty) = true := by decide +kernel
  obtain ⟨hsome, hemitted⟩ : a.plan.isSome = true ∧ a.engine.emitted ≠ [] := by
    simpa [hoption] using hrun
  refine ⟨assembled_misaliased, a, b, ha, hb, hsome, hemitted, ?_⟩
  have hnone : ¬ b.plan.isSome = true := by
    rw [hplan]
    simp [hemitted]
  simpa using hnone

end BuildPlanner.Build
