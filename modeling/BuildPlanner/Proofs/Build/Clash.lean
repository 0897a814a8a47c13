import BuildPlanner.Proofs.Build.Coverage

/-!
Modules that would be built under one name.

Whether two modules clash is told by paths and final names alone. Where resolution leaves no error,
a clash is all that can keep a plan from being made: without one there is a plan and nothing more is
reported, and with one there is no plan and one clash is reported, which ends the planning.
-/

namespace BuildPlanner.Build

open Alias (Resolution resolve)
open Diagnostic (Engine Record)

variable {g : Graph} {target host : Parameters} {r : Resolution}

/-- Two different modules are due for one destination under one final name. -/
structure Clash (g : Graph) (r : Resolution) (d : Destination) (name : String) (m n : ModuleId) :
    Prop where
  ne : m ≠ n
  due_left : g.IsDue ⟨m, d⟩
  due_right : g.IsDue ⟨n, d⟩
  named_left : r.finalName m = .ok name
  named_right : r.finalName n = .ok name

/-- The report of a clash: both modules with their packages, the name, and the destination. -/
def conflictReport (g : Graph) (d : Destination) (name : String) (m n : ModuleId) : Diagnostic :=
  .destinationConflict (g.moduleAt m).name (g.ownerOf m).display (g.moduleAt n).name
    (g.ownerOf n).display name d.label

/-! ### The search -/

lemma firstClash?_eq_some {earlier ms : List PlannedModule} {e m : PlannedModule}
    (h : firstClash? earlier ms = some (e, m)) : e ∈ earlier ++ ms ∧ m ∈ ms ∧
      e.key.destination = m.key.destination ∧ e.finalName = m.finalName ∧
        e.key.module ≠ m.key.module := by
  induction ms generalizing earlier with
  | nil => simp [firstClash?] at h
  | cons x ms ih =>
    -- The search goes on unless `x` clashes.
    have hrest (h : firstClash? (earlier ++ [x]) ms = some (e, m)) : e ∈ earlier ++ x :: ms ∧
        m ∈ x :: ms ∧ e.key.destination = m.key.destination ∧ e.finalName = m.finalName ∧
          e.key.module ≠ m.key.module := by
      obtain ⟨he, hm, hsame⟩ := ih h
      exact ⟨by simpa using he, List.mem_cons_of_mem x hm, hsame⟩
    unfold firstClash? at h
    split at h
    · exact hrest h
    · next y hfind =>
      split at h
      · exact hrest h
      · next hne =>
        obtain ⟨rfl, rfl⟩ : y = e ∧ x = m := by simpa using h
        have hsame : y.key.destination = x.key.destination ∧ y.finalName = x.finalName := by
          simpa using List.find?_some hfind
        have hmem : y ∈ earlier := List.mem_of_find?_eq_some hfind
        exact ⟨List.mem_append_left _ hmem, by simp, hsame.1, hsame.2, hne⟩

lemma exists_clash_of_layoutOf (hg : g.IsClosed) {report : Diagnostic}
    (h : layoutOf g target host r = .ok (.clash report)) :
    ∃ d name m n, Clash g r d name m n ∧ report = conflictReport g d name m n := by
  obtain ⟨ms, hms, h⟩ := Fault.map_eq_ok.1 h
  rw [Layout.ofModules] at h
  have hbuild {x : PlannedModule} (hx : x ∈ ms) :
      g.IsDue x.key ∧ r.finalName x.key.module = .ok x.finalName := by
    obtain ⟨k, hk, hplan⟩ := (Fault.mem_of_mapM_eq_ok hms).1 hx
    obtain ⟨name, hname, rfl⟩ := planModule_eq_ok_iff.1 hplan
    exact ⟨(Graph.mem_reachedModules_iff_isDue hg).1 hk, hname⟩
  cases hclash : firstClash? [] ms with
  | none => simp [hclash] at h
  | some c =>
    obtain ⟨e, m⟩ := c
    have hreport : clashReport g e m = report := by simpa [hclash] using h
    obtain ⟨he, hm, hdest, hname, hne⟩ := firstClash?_eq_some hclash
    obtain ⟨hedue, hename⟩ := hbuild he
    obtain ⟨hmdue, hmname⟩ := hbuild hm
    refine ⟨m.key.destination, m.finalName, e.key.module, m.key.module, ⟨hne, ?_, hmdue, ?_,
      hmname⟩, hreport.symm⟩
    · rw [← hdest]
      exact hedue
    · rw [← hname]
      exact hename

lemma Clash.layoutOf_ne_planned (hg : g.IsClosed) {d : Destination} {name : String} {m n : ModuleId}
    (h : Clash g r d name m n) (plan : Plan) : layoutOf g target host r ≠ .ok (.planned plan) := by
  intro hlayout
  obtain ⟨-, hapart⟩ := exists_planned_iff.1 ⟨plan, hlayout⟩
  exact h.ne (hapart ⟨m, d⟩ ((Graph.mem_reachedModules_iff_isDue hg).2 h.due_left) ⟨n, d⟩
    ((Graph.mem_reachedModules_iff_isDue hg).2 h.due_right) rfl
    (h.named_left.trans h.named_right.symm))

lemma finalName_injective_of_layoutOf {plan : Plan}
    (h : layoutOf g target host r = .ok (.planned plan)) {d : Destination} {m n : ModuleId}
    {x y : PlannedModule} (hx : plan.module? ⟨m, d⟩ = some x) (hy : plan.module? ⟨n, d⟩ = some y)
    (hname : x.finalName = y.finalName) : m = n := by
  have hlaid := layoutOf_planned h
  have hreached {m : ModuleId} {x : PlannedModule} (hx : plan.module? ⟨m, d⟩ = some x) :
      ⟨m, d⟩ ∈ g.reachedModules := hlaid.isSome_module?.1 (by simp [hx])
  obtain ⟨-, hapart⟩ := exists_planned_iff.1 ⟨plan, h⟩
  refine hapart ⟨m, d⟩ (hreached hx) ⟨n, d⟩ (hreached hy) rfl ?_
  rw [(hlaid.finalName_of_module? hx).1, (hlaid.finalName_of_module? hy).1, hname]

/-! ### Reports -/

/-- The report of a clash is recorded after a resolution that left no error, and it is the only
one of its kind. -/
lemma record_conflictReport {engine : Engine} {log : List Diagnostic}
    (herror : (engine.diagnoseAll log).hadError = false)
    (hlog : ∀ x ∈ log, x.code.isFatal = false) (d : Destination) (name : String) (m n : ModuleId) :
    (engine.diagnoseAll log).diagnose (conflictReport g d name m n) =
      (engine.diagnoseAll log).record ⟨conflictReport g d name m n, .error, true⟩ ∧
    ∃ new, ((engine.diagnoseAll log).diagnose (conflictReport g d name m n)).emitted =
        engine.emitted ++ new ∧
      new.filter (·.diagnostic.code = .destinationConflict) =
        [⟨conflictReport g d name m n, .error, true⟩] := by
  have hengine : engine.hadFatal = false :=
    Engine.hadFatal_of_hadError (Engine.hadError_of_diagnoseAll herror)
  have hrecord : (engine.diagnoseAll log).diagnose (conflictReport g d name m n) =
      (engine.diagnoseAll log).record ⟨conflictReport g d name m n, .error, true⟩ := by
    rw [Engine.diagnose, Engine.verdict_of_error (Engine.hadFatal_of_hadError herror) rfl]
    rfl
  have hnone : (log.filterMap engine.verdict).filter
      (·.diagnostic.code = .destinationConflict) = [] := by
    rw [Engine.filter_verdict hengine rfl, List.map_eq_nil_iff, List.filter_eq_nil_iff]
    intro x hx
    have hcalm := hlog x hx
    simp only [decide_eq_true_eq]
    intro hcode
    rw [hcode] at hcalm
    cases hcalm
  refine ⟨hrecord, log.filterMap engine.verdict ++ [⟨conflictReport g d name m n, .error, true⟩],
    ?_, ?_⟩
  · rw [hrecord, Engine.record, (Engine.diagnoseAll_spec hengine hlog).1, List.append_assoc]
  · rw [List.filter_append, hnone]
    rfl

/-- **Clashes are reported exactly when they are there.** From an assembled graph, an engine
without earlier errors for which resolution reports none makes a plan and reports nothing more if
no two modules clash. The plan has the modules that are due, with different names for each
destination. If some clash, there is no plan, and the engine has recorded one report of a clash,
which is fatal and names two modules that do. -/
theorem clash_reported (hg : g.Assembled) (htarget : target.destination = .target)
    (hhost : host.destination = .host) (engine : Engine) :
    ∃ o a, resolve g = .ok o ∧ create g target host engine = .ok a ∧
      (engine.hadError = false → (∀ x ∈ o.log, engine.policy.countsAsError x = false) →
        ((¬ ∃ d name m n, Clash g o.resolution d name m n) →
          a.engine = engine.diagnoseAll o.log ∧ ∃ plan, a.plan = some plan ∧
            (∀ k, (plan.module? k).isSome = true ↔ g.IsDue k) ∧
            ∀ d m n x y, plan.module? ⟨m, d⟩ = some x → plan.module? ⟨n, d⟩ = some y →
              x.finalName = y.finalName → m = n) ∧
        ((∃ d name m n, Clash g o.resolution d name m n) →
          a.plan = none ∧ ∃ d name m n, Clash g o.resolution d name m n ∧
            a.engine =
              (engine.diagnoseAll o.log).record ⟨conflictReport g d name m n, .error, true⟩ ∧
            ∃ new, a.engine.emitted = engine.emitted ++ new ∧
              new.filter (·.diagnostic.code = .destinationConflict) =
                [⟨conflictReport g d name m n, .error, true⟩])) := by
  have hclosed := hg.isClosed
  obtain ⟨o, hresolve, hcreate⟩ := exists_create_eq hg htarget hhost
  rcases hcreate engine with ⟨herror, ha⟩ | ⟨herror, hdecides, layout, hlayout, ha⟩
  · refine ⟨o, _, hresolve, ha, fun he hcalm => ?_⟩
    cases herror.symm.trans ((Engine.hadError_diagnoseAll_eq_false_iff he).2 hcalm)
  · refine ⟨o, _, hresolve, ha, fun _ _ => ?_⟩
    cases layout with
    | planned plan =>
      refine ⟨fun _ => ⟨rfl, plan, rfl, fun k => ?_, fun d m n x y hx hy =>
        finalName_injective_of_layoutOf hlayout hx hy⟩, ?_⟩
      · rw [(layoutOf_planned hlayout).isSome_module?, Graph.mem_reachedModules_iff_isDue hclosed]
      · rintro ⟨d, name, m, n, hclash⟩
        exact absurd hlayout (hclash.layoutOf_ne_planned hclosed plan)
    | clash report =>
      obtain ⟨d, name, m, n, hclash, rfl⟩ := exists_clash_of_layoutOf hclosed hlayout
      obtain ⟨hrecord, hemitted⟩ := record_conflictReport herror hdecides.calm d name m n
      exact ⟨(absurd ⟨d, name, m, n, hclash⟩ ·), fun _ => ⟨rfl, d, name, m, n, hclash, hrecord,
        hemitted⟩⟩

/-- Two root packages with a module of one name. -/
def namesakes : Graph where
  packages := [
    { identity := "app", display := "app", isRoot := true, modules := [0] },
    { identity := "lib", display := "lib", isRoot := true, modules := [1] }]
  modules := [{ name := "Core" }, { name := "Core", owner := 1 }]

lemma assembled_namesakes : namesakes.Assembled := by
  have happ := @Graph.Assembled.package _ _ "app" "" .current true .empty rfl
  have hlib := @Graph.Assembled.package _ _ "lib" "" .current true happ rfl
  have hcore := @Graph.Assembled.module _ _ 0 "Core" .library {} hlib rfl
  exact @Graph.Assembled.module _ _ 1 "Core" .library {} hcore rfl

/-- Both modules are due for the target as `Core`, which is reported. -/
theorem clash_reported_namesakes : namesakes.Assembled ∧ ∃ o a, resolve namesakes = .ok o ∧
    create namesakes (.debug .target) (.debug .host) {} = .ok a ∧ o.log = [] ∧
      Clash namesakes o.resolution .target "Core" 0 1 ∧ a.plan = none ∧
        ∃ d name m n, Clash namesakes o.resolution d name m n ∧
          a.engine.emitted = [⟨conflictReport namesakes d name m n, .error, true⟩] := by
  obtain ⟨o, a, hresolve, hcreate, hreported⟩ :=
    @clash_reported namesakes (.debug .target) (.debug .host) assembled_namesakes rfl rfl {}
  have hoption : (resolve namesakes).toOption = some o := Fault.toOption_eq_some.2 hresolve
  have hlog : o.log = [] := by
    have hcalm : (resolve namesakes).toOption.map (·.log) = some [] := by decide +kernel
    simpa [hoption] using hcalm
  have hdue (m : ModuleId) (hroot : m ∈ namesakes.rootModules)
      (hfree : namesakes.isHostModule m = false) : namesakes.IsDue ⟨m, .target⟩ := by
    have hforced : ¬ namesakes.IsHostForced (.module m) := by simp [← Graph.isHostModule_iff, hfree]
    exact ⟨[.module m], .root hroot, by simpa using hforced⟩
  have hname (m : ModuleId) (h : (resolve namesakes).toOption.bind
      (fun o => (o.resolution.finalName m).toOption) = some "Core") :
      o.resolution.finalName m = .ok "Core" := by
    rw [hoption] at h
    exact Fault.toOption_eq_some.1 h
  have hclash : Clash namesakes o.resolution .target "Core" 0 1 :=
    ⟨by decide, hdue 0 (by decide) (by decide), hdue 1 (by decide) (by decide),
      hname 0 (by decide +kernel), hname 1 (by decide +kernel)⟩
  obtain ⟨hnone, d, name, m, n, hfound, hengine, -⟩ :=
    (hreported rfl (by simp [hlog])).2 ⟨_, _, _, _, hclash⟩
  refine ⟨assembled_namesakes, o, a, hresolve, hcreate, hlog, hclash, hnone, d, name, m, n,
    hfound, ?_⟩
  rw [hengine, hlog]
  rfl

end BuildPlanner.Build
