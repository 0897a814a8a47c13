import BuildPlanner.Proofs.Build.Plan

/-!
When there is a plan, and what it holds for each build.

A plan is laid out exactly if every module that is to be built has a name and no two modules share
one for a destination. The search for modules that do compares each with the first earlier one of
its name, which is enough since all earlier ones of that name are builds of one module.
-/

namespace BuildPlanner.Build

open Alias (Resolution)

variable {g : Graph} {target host : Parameters} {r : Resolution} {plan : Plan}

/-! ### Clashes -/

/-- No two modules are built under one name for one destination. -/
def Compatible (ms : List PlannedModule) : Prop :=
  ∀ e ∈ ms, ∀ m ∈ ms, e.key.destination = m.key.destination → e.finalName = m.finalName →
    e.key.module = m.key.module

lemma compatible_append_singleton {ms : List PlannedModule} {m : PlannedModule} :
    Compatible (ms ++ [m]) ↔ Compatible ms ∧ ∀ e ∈ ms,
      e.key.destination = m.key.destination → e.finalName = m.finalName →
        e.key.module = m.key.module := by
  constructor
  · intro h
    refine ⟨?_, ?_⟩
    · intro x hx y hy
      exact h x (List.mem_append_left _ hx) y (List.mem_append_left _ hy)
    · intro x hx
      exact h x (List.mem_append_left _ hx) m (by simp)
  · rintro ⟨hms, hm⟩ x hx y hy hdest hname
    simp only [List.mem_append, List.mem_singleton] at hx hy
    -- A clash is among the earlier ones, or one of them with `m`.
    rcases hx with hx | rfl <;> rcases hy with hy | rfl
    · exact hms x hx y hy hdest hname
    · exact hm x hx hdest hname
    · exact (hm y hy hdest.symm hname.symm).symm
    · rfl

/-- Behind modules without a clash, the search finds none exactly if there is none. -/
lemma firstClash?_eq_none {earlier ms : List PlannedModule} (h : Compatible earlier) :
    firstClash? earlier ms = none ↔ Compatible (earlier ++ ms) := by
  induction ms generalizing earlier with
  | nil => simpa [firstClash?] using h
  | cons m ms ih =>
    have hsplit : earlier ++ m :: ms = (earlier ++ [m]) ++ ms := by simp
    rw [hsplit]
    unfold firstClash?
    split
    · next hnone =>
      refine ih (compatible_append_singleton.2 ⟨h, fun e he hdest hname => ?_⟩)
      simpa [hdest, hname] using List.find?_eq_none.1 hnone e he
    · next e hsome =>
      have he := List.mem_of_find?_eq_some hsome
      have hsame : e.key.destination = m.key.destination ∧ e.finalName = m.finalName := by
        simpa using List.find?_some hsome
      split
      · next hmodule =>
        refine ih (compatible_append_singleton.2 ⟨h, fun x hx hdest hname => ?_⟩)
        rw [← hmodule]
        exact h x hx e he (hdest.trans hsame.1.symm) (hname.trans hsame.2.symm)
      · next hmodule =>
        refine iff_of_false (by simp) fun hall => hmodule ?_
        exact hall e (by simp [he]) m (by simp) hsame.1 hsame.2

/-! ### Layouts -/

lemma Destination.eq_of_ne {d d' : Destination} (h : d ≠ d') :
    d = .host ∧ d' = .target ∨ d' = .host ∧ d = .target := by
  cases d <;> cases d' <;> simp_all

/-- The build of a module under a name. -/
def buildAs (target host : Parameters) (r : Resolution) (k : ModuleKey) (name : String) :
    PlannedModule where
  key := k
  finalName := name
  buildName := name
  aliases := r.aliases k.module
  parameters := parametersFor target host k.destination

lemma planModule_eq_ok_iff {k : ModuleKey} {m : PlannedModule} :
    planModule target host r k = .ok m ↔
      ∃ name, r.finalName k.module = .ok name ∧ buildAs target host r k name = m := by
  simp only [planModule, Fault.bind_eq_ok, Fault.pure_eq_ok]
  rfl

lemma markModule_buildAs (keys : List ModuleKey) (k : ModuleKey) (name : String) :
    markModule keys (buildAs target host r k name) = { buildAs target host r k name with
      buildName := if isHostDuplicate keys k then name ++ "-tool" else name } := by
  by_cases hdup : isHostDuplicate keys k = true <;> simp [markModule, buildAs, hdup]

lemma exists_mapM_planModule_iff :
    (∃ ms, g.reachedModules.mapM (planModule target host r) = .ok ms) ↔
      ∀ k ∈ g.reachedModules, ∃ name, r.finalName k.module = .ok name := by
  rw [Fault.exists_mapM_eq_ok]
  refine forall₂_congr fun k _ => ⟨?_, ?_⟩
  · rintro ⟨m, hm⟩
    obtain ⟨name, hname, -⟩ := planModule_eq_ok_iff.1 hm
    exact ⟨name, hname⟩
  · rintro ⟨name, hname⟩
    exact ⟨_, planModule_eq_ok_iff.2 ⟨name, hname, rfl⟩⟩

lemma exists_layoutOf (h : ∀ k ∈ g.reachedModules, ∃ name, r.finalName k.module = .ok name) :
    ∃ layout, layoutOf g target host r = .ok layout := by
  obtain ⟨ms, hms⟩ : ∃ ms, g.reachedModules.mapM (planModule target host r) = .ok ms :=
    exists_mapM_planModule_iff.2 h
  exact ⟨_, Fault.map_eq_ok.2 ⟨ms, hms, rfl⟩⟩

/-- **There is a plan exactly if all builds have a name and no two modules share one.** -/
theorem exists_planned_iff : (∃ plan, layoutOf g target host r = .ok (.planned plan)) ↔
    (∀ k ∈ g.reachedModules, ∃ name, r.finalName k.module = .ok name) ∧
      ∀ k ∈ g.reachedModules, ∀ l ∈ g.reachedModules, k.destination = l.destination →
        r.finalName k.module = r.finalName l.module → k.module = l.module := by
  have hnamed : (∃ ms, g.reachedModules.mapM (planModule target host r) = .ok ms) ↔
      ∀ k ∈ g.reachedModules, ∃ name, r.finalName k.module = .ok name :=
    exists_mapM_planModule_iff
  have hclash : ∀ ms, g.reachedModules.mapM (planModule target host r) = .ok ms →
      (firstClash? [] ms = none ↔ ∀ k ∈ g.reachedModules, ∀ l ∈ g.reachedModules,
        k.destination = l.destination → r.finalName k.module = r.finalName l.module →
          k.module = l.module) := by
    intro ms hms
    have hmem : ∀ {m}, m ∈ ms ↔ ∃ k ∈ g.reachedModules, ∃ name,
        r.finalName k.module = .ok name ∧ buildAs target host r k name = m := by
      intro m
      simp only [Fault.mem_of_mapM_eq_ok hms, planModule_eq_ok_iff]
    rw [firstClash?_eq_none (by simp [Compatible]), List.nil_append]
    refine ⟨fun h k hk l hl hdest hname => ?_, fun h e he m hm hdest hname => ?_⟩
    · obtain ⟨name, hkname⟩ := hnamed.1 ⟨ms, hms⟩ k hk
      exact h (buildAs target host r k name) (hmem.2 ⟨k, hk, name, hkname, rfl⟩)
        (buildAs target host r l name) (hmem.2 ⟨l, hl, name, hname.symm.trans hkname, rfl⟩)
        hdest rfl
    · obtain ⟨k, hk, kname, hkname, rfl⟩ := hmem.1 he
      obtain ⟨l, hl, lname, hlname, rfl⟩ := hmem.1 hm
      obtain rfl : kname = lname := hname
      exact h k hk l hl hdest (hkname.trans hlname.symm)
  simp only [layoutOf_eq_planned_iff]
  refine ⟨?_, fun ⟨hall, hnone⟩ => ?_⟩
  · rintro ⟨plan, ms, hms, hnone, -⟩
    exact ⟨hnamed.1 ⟨ms, hms⟩, (hclash ms hms).1 hnone⟩
  · obtain ⟨ms, hms⟩ := hnamed.2 hall
    exact ⟨_, ms, hms, (hclash ms hms).2 hnone, rfl⟩

lemma module?_layoutOf (h : layoutOf g target host r = .ok (.planned plan)) {k : ModuleKey}
    (hk : k ∈ g.reachedModules) : ∃ name, r.finalName k.module = .ok name ∧
      plan.module? k = some { buildAs target host r k name with
        buildName := if isHostDuplicate g.reachedModules k then name ++ "-tool" else name } := by
  obtain ⟨m, hm⟩ := Option.isSome_iff_exists.1 ((layoutOf_planned h).isSome_module?.2 hk)
  have hkey := Plan.key_of_module? hm
  have hmem := List.mem_of_find?_eq_some hm
  obtain ⟨ms, hms, -, rfl⟩ := layoutOf_eq_planned_iff.1 h
  obtain ⟨x, hx, rfl⟩ := List.mem_map.1 hmem
  obtain ⟨l, -, hl⟩ := (Fault.mem_of_mapM_eq_ok hms).1 hx
  obtain ⟨name, hname, rfl⟩ := planModule_eq_ok_iff.1 hl
  obtain rfl : l = k := by
    rw [← hkey, key_markModule]
    rfl
  exact ⟨name, hname, hm.trans (congrArg some (markModule_buildAs _ l name))⟩

lemma product?_layoutOf (h : layoutOf g target host r = .ok (.planned plan)) (k : ProductKey) :
    plan.product? k =
      if k ∈ linkedProducts g then some (planProduct g target host (linkedProducts g) k)
      else none := by
  obtain ⟨ms, -, -, rfl⟩ := layoutOf_eq_planned_iff.1 h
  generalize linkedProducts g = linked
  have hfind : linked.find? (fun l => l = k) = if k ∈ linked then some k else none := by
    split
    · next hk =>
      obtain ⟨l, hl⟩ := Option.isSome_iff_exists.1
        ((List.find?_isSome (p := fun l => decide (l = k))).2 ⟨k, hk, by simp⟩)
      obtain rfl : l = k := by simpa using List.find?_some hl
      exact hl
    · next hk => simpa using fun l hl => ne_of_mem_of_not_mem hl hk
  calc (linked.map (planProduct g target host linked)).find? (·.key = k)
      = (linked.find? fun l => l = k).map (planProduct g target host linked) := by
        rw [List.find?_map]
        rfl
    _ = _ := by
        rw [hfind]
        split <;> rfl

end BuildPlanner.Build
