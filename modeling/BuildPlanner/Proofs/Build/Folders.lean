import BuildPlanner.Proofs.Build.Layout
import BuildPlanner.Proofs.Build.Path

/-!
Which builds of modules keep their intermediate files in one directory.

Names are compared for each destination on its own and before host builds are marked, while the
build directories of both destinations may be the same. So two builds of different modules can
share a directory, and the two builds of one module cannot.
-/

namespace BuildPlanner.Build

open Alias (Resolution)
open Diagnostic (Engine)

variable {g : Graph} {target host : Parameters} {r : Resolution} {plan : Plan}

lemma ModuleKey.eq_of_module_eq {k l : ModuleKey} (hmodule : k.module = l.module)
    (hdest : k.destination = l.destination) : k = l := by
  cases k
  cases l
  simp_all

namespace Plan

/-- The mark in the name of a host build whose module is also built for the target. -/
def mark (plan : Plan) (k : ModuleKey) : String :=
  if isHostDuplicate (plan.modules.map (·.key)) k then "-tool" else ""

/-- What the directory of a build is called in its build directory, up to the extension. -/
def folder (plan : Plan) (m : PlannedModule) : String := relative m.finalName ++ plan.mark m.key

lemma mark_of_target {k : ModuleKey} (h : k.destination = .target) : plan.mark k = "" := by
  simp [mark, isHostDuplicate, h]

lemma mark_of_host {m : PlannedModule} (hm : m ∈ plan.modules)
    (htarget : m.key.destination = .target) {k : ModuleKey} (hk : k.destination = .host)
    (hmodule : k.module = m.key.module) : plan.mark k = "-tool" := by
  have hkey : (⟨k.module, .target⟩ : ModuleKey) = m.key := by rw [hmodule, ← htarget]
  have hmem : (⟨k.module, .target⟩ : ModuleKey) ∈ plan.modules.map (·.key) :=
    hkey ▸ List.mem_map_of_mem hm
  simp [mark, isHostDuplicate, hk, hmem]

lemma slash_notMem_mark (k : ModuleKey) : '/' ∉ (plan.mark k).toList := by
  unfold mark
  split <;> decide

lemma head?_mark (k : ModuleKey) : (plan.mark k).toList.head? ≠ some '/' := by
  unfold mark
  split <;> decide

lemma leaf_folder (m : PlannedModule) :
    leaf (plan.folder m) = leaf m.finalName ++ (plan.mark m.key).toList := by
  rw [folder, leaf_append (slash_notMem_mark _), leaf_relative]

end Plan

/-! ### Builds of a layout -/

lemma buildName_layoutOf (h : layoutOf g target host r = .ok (.planned plan)) {m : PlannedModule}
    (hm : m ∈ plan.modules) : m.buildName = m.finalName ++ plan.mark m.key := by
  have hkeys := (layoutOf_planned h).moduleKeys
  obtain ⟨ms, hms, -, rfl⟩ := layoutOf_eq_planned_iff.1 h
  rw [Plan.mark, hkeys]
  obtain ⟨x, hx, rfl⟩ := List.mem_map.1 hm
  obtain ⟨k, -, hk⟩ := (Fault.mem_of_mapM_eq_ok hms).1 hx
  obtain ⟨name, -, rfl⟩ := planModule_eq_ok_iff.1 hk
  rw [markModule_buildAs]
  by_cases hdup : isHostDuplicate g.reachedModules k = true <;> simp [buildAs, hdup]

lemma module_eq_layoutOf (h : layoutOf g target host r = .ok (.planned plan)) {m n : PlannedModule}
    (hm : m ∈ plan.modules) (hn : n ∈ plan.modules)
    (hdest : m.key.destination = n.key.destination) (hname : m.finalName = n.finalName) :
    m.key.module = n.key.module := by
  have hlaid := layoutOf_planned h
  have hreached : ∀ x ∈ plan.modules, x.key ∈ g.reachedModules := fun x hx =>
    hlaid.moduleKeys ▸ List.mem_map_of_mem hx
  refine (exists_planned_iff.1 ⟨plan, h⟩).2 _ (hreached m hm) _ (hreached n hn) hdest ?_
  rw [(hlaid.named m hm).1, (hlaid.named n hn).1, hname]

lemma tempsPath_layoutOf (h : layoutOf g target host r = .ok (.planned plan)) {m : PlannedModule}
    (hm : m ∈ plan.modules) :
    m.tempsPath = m.parameters.buildPath ++ "/" ++ plan.folder m ++ ".build" := by
  rw [PlannedModule.tempsPath, appendPath_buildPath, buildName_layoutOf h hm,
    relative_append (by decide), relative_append (Plan.head?_mark _), Plan.folder]
  simp only [String.append_assoc]

lemma leaf_folder_ne {m n : PlannedModule} (hn : n ∈ plan.modules)
    (hhost : m.key.destination = .host) (htarget : n.key.destination = .target)
    (hmodule : m.key.module = n.key.module) (hname : m.finalName = n.finalName) :
    leaf (plan.folder m) ≠ leaf (plan.folder n) := by
  rw [Plan.leaf_folder, Plan.leaf_folder, hname, Plan.mark_of_host hn htarget hhost hmodule,
    Plan.mark_of_target htarget]
  simp

lemma tempsPath_ne_of_module_eq (h : layoutOf g target host r = .ok (.planned plan))
    {m n : PlannedModule} (hm : m ∈ plan.modules) (hn : n ∈ plan.modules)
    (hmodule : m.key.module = n.key.module) (hne : m.key ≠ n.key) :
    m.parameters.buildPath ++ "/" ++ plan.folder m ≠
      n.parameters.buildPath ++ "/" ++ plan.folder n := by
  have hname : m.finalName = n.finalName := by
    have hm' := ((layoutOf_planned h).named m hm).1
    rw [hmodule, ((layoutOf_planned h).named n hn).1] at hm'
    exact (Except.ok.inj hm').symm
  intro heq
  have hleaf := congrArg leaf heq
  rw [leaf_append_slash, leaf_append_slash] at hleaf
  have hdest : m.key.destination ≠ n.key.destination := fun hdest =>
    hne (ModuleKey.eq_of_module_eq hmodule hdest)
  rcases Destination.eq_of_ne hdest with ⟨hhost, htarget⟩ | ⟨hhost, htarget⟩
  · exact leaf_folder_ne hn hhost htarget hmodule hname hleaf
  · exact leaf_folder_ne hm hhost htarget hmodule.symm hname.symm hleaf.symm

/-- **Two builds share a directory exactly if they are builds of different modules that are called
the same in one place.** Their names differ if they are for one destination, but a mark can make
them the same, a slash in front does not count, and builds for different destinations can have one
build directory, or a name that leads from one into the other. -/
theorem tempsPath_eq_iff {engine : Engine} {a : Attempt} (h : create g target host engine = .ok a)
    (hplan : a.plan = some plan) {m n : PlannedModule} (hm : m ∈ plan.modules)
    (hn : n ∈ plan.modules) (hne : m.key ≠ n.key) :
    (m.key.destination = n.key.destination → m.finalName ≠ n.finalName) ∧
      (m.tempsPath = n.tempsPath ↔ m.key.module ≠ n.key.module ∧
        (m.parameters.buildPath = n.parameters.buildPath ∧ plan.folder m = plan.folder n ∨
          Within m.parameters.buildPath (plan.folder m) n.parameters.buildPath (plan.folder n) ∨
          Within n.parameters.buildPath (plan.folder n) m.parameters.buildPath
            (plan.folder m))) := by
  obtain ⟨o, -, -, -, -, hlayout⟩ := create_eq_plan_iff.1 ⟨a, h, hplan⟩
  refine ⟨fun hdest hname => ?_, ?_⟩
  · have hmodule := module_eq_layoutOf hlayout hm hn hdest hname
    exact hne (ModuleKey.eq_of_module_eq hmodule hdest)
  · rw [tempsPath_layoutOf hlayout hm, tempsPath_layoutOf hlayout hn, String.append_left_inj,
      ← append_slash_eq_iff]
    refine ⟨fun heq => ⟨fun hmodule => ?_, heq⟩, And.right⟩
    exact tempsPath_ne_of_module_eq hlayout hm hn hmodule hne heq

/-- `App` sees a module of the name that a macro of its package has. -/
def shadowed : Graph where
  packages := [
    { identity := "app", display := "app", isRoot := true, modules := [0, 1] },
    { identity := "lib", display := "lib", modules := [2], products := [0] }]
  modules := [
    { name := "Utils", kind := .codeMacro },
    { name := "App", dependencies := [.product 0 []] },
    { name := "Utils", owner := 1 }]
  products := [{ name := "Lib", owner := 1, modules := [2] }]

/-- The macro is built for the host and the other module for the target. With one build directory
for both, they share a directory. -/
theorem tempsPath_eq_iff_shadowed : ∃ a plan m n,
    create shadowed (.debug .target) (.debug .host) {} = .ok a ∧ a.plan = some plan ∧
      m ∈ plan.modules ∧ n ∈ plan.modules ∧ m.key = ⟨0, .host⟩ ∧ n.key = ⟨2, .target⟩ ∧
        m.tempsPath = n.tempsPath := by
  obtain ⟨a, plan, hcreate, hplan, hp⟩ : ∃ a plan, create shadowed (.debug .target)
      (.debug .host) {} = .ok a ∧ a.plan = some plan ∧ _ :=
    exists_plan (fun plan => plan.modules.any fun m => plan.modules.any fun n =>
      m.key = ⟨0, .host⟩ && n.key = ⟨2, .target⟩ && plan.folder m = plan.folder n &&
        m.parameters.buildPath = n.parameters.buildPath) (by decide +kernel)
  simp only [List.any_eq_true, Bool.and_eq_true, decide_eq_true_eq] at hp
  obtain ⟨m, hm, n, hn, ⟨⟨hmkey, hnkey⟩, hfolder⟩, hpath⟩ := hp
  have hne : m.key ≠ n.key := by
    rw [hmkey, hnkey]
    decide
  obtain ⟨-, hiff⟩ := tempsPath_eq_iff hcreate hplan hm hn hne
  refine ⟨a, plan, m, n, hcreate, hplan, hm, hn, hmkey, hnkey, hiff.2 ⟨?_, .inl ⟨hpath, hfolder⟩⟩⟩
  rw [hmkey, hnkey]
  decide

/-- A module and a macro whose name is that of the module with a mark. The macro needs the module,
so the module is built for both destinations. -/
def marked : Graph where
  packages := [{ identity := "app", display := "app", isRoot := true, modules := [0, 1] }]
  modules := [
    { name := "Core" },
    { name := "Core-tool", kind := .codeMacro, dependencies := [.module 0] }]

/-- Two builds of a plan can share a directory, even if both are for the host. -/
theorem tempsPath_marked_taken : ∃ a plan m n,
    create marked (.debug .target) (.debug .host) {} = .ok a ∧ a.plan = some plan ∧
      m ∈ plan.modules ∧ n ∈ plan.modules ∧ m.key = ⟨0, .host⟩ ∧ n.key = ⟨1, .host⟩ ∧
        m.tempsPath = n.tempsPath := by
  obtain ⟨a, plan, hcreate, hplan, hp⟩ : ∃ a plan, create marked (.debug .target)
      (.debug .host) {} = .ok a ∧ a.plan = some plan ∧ _ :=
    exists_plan (fun plan => plan.modules.any fun m => plan.modules.any fun n =>
      m.key = ⟨0, .host⟩ && n.key = ⟨1, .host⟩ && m.tempsPath = n.tempsPath) (by decide +kernel)
  simp only [List.any_eq_true, Bool.and_eq_true, decide_eq_true_eq] at hp
  obtain ⟨m, hm, n, hn, ⟨hmkey, hnkey⟩, hpath⟩ := hp
  exact ⟨a, plan, m, n, hcreate, hplan, hm, hn, hmkey, hnkey, hpath⟩

end BuildPlanner.Build
