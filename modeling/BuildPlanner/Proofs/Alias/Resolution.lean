import BuildPlanner.Proofs.Alias.Map
import BuildPlanner.Proofs.Alias.Reports
import BuildPlanner.Proofs.Tally

/-!
What resolution decides where no cycle is reached.

The survey gives what the root modules see, and from it alone follow which modules are reached,
their final names and the reports of conflicting names.
-/

namespace BuildPlanner.Alias

variable {g : Graph}

/-! ### Reports -/

lemma Only.isFatal {codes : List Diagnostic.Code} {ds : List Diagnostic} (h : Only codes ds)
    (hcodes : ∀ c ∈ codes, c.isFatal = false) : ∀ d ∈ ds, d.code.isFatal = false :=
  fun d hd => hcodes _ (h d hd)

lemma Only.filterMap_conflict? {codes : List Diagnostic.Code} {ds : List Diagnostic}
    (h : Only codes ds) (hcodes : .moduleAliasConflict ∉ codes) :
    ds.filterMap conflict? = [] := by
  rw [List.filterMap_eq_nil_iff]
  intro d hd
  have hd := h d hd
  cases d with
  | moduleAliasConflict names module product package => exact absurd hd hcodes
  | _ => rfl

/-- The names that a conflict report for a module lists, if one is due. -/
def dueConflict (g : Graph) (m : ModuleId) : List (List String × String) :=
  if 2 ≤ (otherNames g (visibleFromRoots g) m).card then
    [((otherNames g (visibleFromRoots g) m).sort, (g.moduleAt m).name)]
  else []

/-! ### Decisions -/

/-- The alias map of a module, put together from the entries that it needs. -/
def mapOf (g : Graph) (m : ModuleId) : AliasMap :=
  (demandedBy g (visibleFromRoots g) (visible g m) m).foldl (AliasMap.add (g.moduleAt m).name) {}

/-- What the outcome of a resolution decides for each module, and what it reports. -/
structure Outcome.Decides (g : Graph) (o : Outcome) : Prop where
  naming : ∀ m, g.IsReached m → o.resolution.naming? m =
    some ⟨chosenName g (visibleFromRoots g) m, (mapOf g m).aliases⟩
  unreached : ∀ m, ¬ g.IsReached m → o.resolution.naming? m = none
  conflicts : o.log.filterMap conflict? = g.moduleIds.flatMap (dueConflict g)
  mapped : ∀ m, g.IsReached m → (mapOf g m).log ⊆ o.log
  calm : ∀ d ∈ o.log, d.code.isFatal = false

lemma lookup_map {α β : Type} [BEq α] [LawfulBEq α] {l : List α} {f : α → β} {a : α} :
    (l.map fun x => (x, f x)).lookup a = if l.contains a then some (f a) else none := by
  induction l with
  | nil => rfl
  | cons x l ih =>
    rw [List.map_cons, List.lookup_cons, ih, List.contains_cons]
    by_cases ha : a == x
    · simp [eq_of_beq ha]
    · simp [ha]

lemma flatMap_filter {α β : Type} {l : List α} {p : α → Bool} {f : α → List β}
    (h : ∀ x ∈ l, ¬ p x → f x = []) : (l.filter p).flatMap f = l.flatMap f := by
  induction l with
  | nil => rfl
  | cons x l ih =>
    have ih := ih fun y hy => h y (by simp [hy])
    by_cases hx : p x
    · rw [List.filter_cons_of_pos hx, List.flatMap_cons, List.flatMap_cons, ih]
    · rw [List.filter_cons_of_neg hx, List.flatMap_cons, h x (by simp) hx, ih, List.nil_append]

lemma getD_map_moduleIds {α : Type} (f : ModuleId → Option α) (m : ModuleId) :
    (g.moduleIds.map f).getD m none = if m < g.modules.length then f m else none := by
  rw [List.getD_eq_getElem?_getD, List.getElem?_map, Graph.moduleIds]
  by_cases hm : m < g.modules.length
  · simp [hm]
  · simp [hm]

lemma inRange_view (hg : g.IsClosed) (hac : ¬ g.IsCyclic) {m : ModuleId} (hm : g.IsReached m) :
    ((Survey.ofGraph g).view m).InRange g := by
  intro s hs
  rw [Survey.sightings_view hg hac hm] at hs
  exact hg.reached_lt (hm.trans ((exists_mem_visible_iff hg hac hm).1 ⟨s.name, hs⟩))

lemma mem_reached (hg : g.IsClosed) (hac : ¬ g.IsCyclic) {m : ModuleId} :
    m ∈ ((Survey.ofGraph g).reach g).modules g ↔ g.IsReached m := by
  rw [View.mem_modules, Survey.sightings_reach hg hac, exists_mem_visibleFromRoots_iff hg hac,
    and_iff_right_iff_imp]
  exact hg.reached_lt

lemma mem_demandedBy_visible (hg : g.IsClosed) (hac : ¬ g.IsCyclic) {m : ModuleId}
    (hm : g.IsReached m) {e : String × String} :
    e ∈ demandedBy g (visibleFromRoots g) (visible g m) m ↔
      ∃ d, (∃ name, (⟨d, name⟩ : Sighting) ∈ visible g m) ∧
        (otherNames g (visibleFromRoots g) d).Nonempty ∧
          e ∈ demanded g (visibleFromRoots g) (visible g m) d :=
  mem_demandedBy ((mem_visible_iff hg hac hm).2 (.inl rfl)) fun s hs =>
    hg.reached_lt (hm.trans ((exists_mem_visible_iff hg hac hm).1 ⟨s.name, hs⟩))

lemma dueConflict_of_not_isReached (hg : g.IsClosed) (hac : ¬ g.IsCyclic) {m : ModuleId}
    (hm : ¬ g.IsReached m) : dueConflict g m = [] := by
  have hempty : otherNames g (visibleFromRoots g) m = ∅ := by
    rw [Finset.eq_empty_iff_forall_notMem]
    intro name hname
    exact hm ((exists_mem_visibleFromRoots_iff hg hac).1 ⟨name, (mem_otherNames.1 hname).1⟩)
  simp [dueConflict, hempty]

lemma mapM_renameConflict (hg : g.IsClosed) (hac : ¬ g.IsCyclic) (ms : List ModuleId) :
    ∃ dss, ms.mapM (renameConflict g ((Survey.ofGraph g).reach g)) = .ok dss ∧
      dss.flatten.filterMap conflict? = ms.flatMap (dueConflict g) ∧
      Only [.moduleAliasConflict] dss.flatten := by
  have hspec : ∀ m, ∃ ds, renameConflict g ((Survey.ofGraph g).reach g) m = .ok ds ∧
      ds.filterMap conflict? = dueConflict g m := by
    intro m
    rw [dueConflict, ← Survey.sightings_reach hg hac]
    exact renameConflict_spec (Survey.tagged_reach hg hac) m
  choose c hc hdue using hspec
  refine ⟨ms.map c, Fault.mapM_eq_ok_of_forall fun m _ => hc m, ?_, ?_⟩
  · rw [← List.flatMap_def, List.filterMap_flatMap]
    simp only [hdue]
  · rw [← List.flatMap_def]
    exact Only.flatMap fun m _ => only_renameConflict (hc m)

lemma mapM_aliasMap (hg : g.IsClosed) (hac : ¬ g.IsCyclic) {ms : List ModuleId}
    (hms : ∀ m ∈ ms, g.IsReached m) :
    ms.mapM (fun m => return (m, ← aliasMap g ((Survey.ofGraph g).reach g)
      ((Survey.ofGraph g).view m) m)) = .ok (ms.map fun m => (m, mapOf g m)) := by
  refine Fault.mapM_eq_ok_of_forall fun m hm => ?_
  have hmap : aliasMap g ((Survey.ofGraph g).reach g) ((Survey.ofGraph g).view m) m =
      .ok (mapOf g m) := by
    rw [aliasMap_eq (inRange_view hg hac (hms m hm)), Survey.sightings_reach hg hac,
      Survey.sightings_view hg hac (hms m hm), mapOf]
  rw [hmap]
  rfl

lemma complete_decides (hg : g.IsClosed) (hac : ¬ g.IsCyclic) {screened : List Diagnostic}
    (hscreened : Only [.moduleAliasInvalid, .moduleAliasAmbiguous] screened) :
    ∃ o, complete g screened (Survey.ofGraph g) = .ok o ∧ o.Decides g := by
  set s := Survey.ofGraph g
  set reached := (s.reach g).modules g
  have hmem : ∀ m, m ∈ reached ↔ g.IsReached m := fun m => mem_reached hg hac
  obtain ⟨conflicts, hconflicts, hdue, honly⟩ := mapM_renameConflict hg hac reached
  have hmaps := mapM_aliasMap hg hac fun m => (hmem m).1
  refine ⟨_, Fault.bind_eq_ok.2 ⟨_, run_countEach_eq_ok_iff.2 ⟨hconflicts, rfl⟩,
    Fault.bind_eq_ok.2 ⟨_, hmaps, rfl⟩⟩, ?_⟩
  have hnotices : Only surveyCodes s.notices.log := Survey.only_ofWalk g _ _
  have hmapped : Only [.moduleAliasMapConflict]
      ((reached.map fun m => (m, mapOf g m)).flatMap fun e => e.2.log) := by
    refine Only.flatMap fun e he => ?_
    obtain ⟨m, -, rfl⟩ := List.mem_map.1 he
    exact AliasMap.only_foldl _ _
  have hproducts := only_duplicateProducts g reached s.renamingEdges
  refine ⟨fun m hm => ?_, fun m hm => ?_, ?_, fun m hm d hd => ?_, fun d hd => ?_⟩
  · -- A reached module has the name that the roots see.
    dsimp only [Resolution.naming?]
    rw [getD_map_moduleIds, if_pos (hg.reached_lt hm), lookup_map,
      if_pos (List.contains_iff_mem.2 ((hmem m).2 hm)), finalName_eq_chosenName,
      Survey.sightings_reach hg hac]
    rfl
  · -- The others have none.
    dsimp only [Resolution.naming?]
    rw [getD_map_moduleIds, lookup_map, if_neg fun h => hm ((hmem m).1 (List.contains_iff_mem.1 h))]
    simp
  · -- Conflicts are only reported where a module is reached.
    have hall : reached.flatMap (dueConflict g) = g.moduleIds.flatMap (dueConflict g) := by
      refine flatMap_filter fun m hm hsees => dueConflict_of_not_isReached hg hac fun h => hsees ?_
      exact (List.mem_filter.1 ((hmem m).2 h)).2
    dsimp only
    rw [List.filterMap_append, List.filterMap_append, List.filterMap_append,
      List.filterMap_append, hscreened.filterMap_conflict? (by decide),
      hnotices.filterMap_conflict? (by decide), hmapped.filterMap_conflict? (by decide),
      hproducts.filterMap_conflict? (by decide), hdue, hall]
    simp
  · -- What the maps report is in the log.
    have hlog : d ∈ (reached.map fun m => (m, mapOf g m)).flatMap fun e => e.2.log :=
      List.mem_flatMap.2 ⟨_, List.mem_map.2 ⟨m, (hmem m).2 hm, rfl⟩, hd⟩
    simp only [List.mem_append]
    exact .inl (.inr hlog)
  · -- No part of the log has a fatal code.
    dsimp only at hd
    simp only [List.mem_append] at hd
    rcases hd with (((hd | hd) | hd) | hd) | hd
    · exact hscreened.isFatal (by decide) d hd
    · exact hnotices.isFatal (by decide) d hd
    · exact honly.isFatal (by decide) d hd
    · exact hmapped.isFatal (by decide) d hd
    · exact hproducts.isFatal (by decide) d hd

lemma findSome?_followed (hg : g.IsClosed) (w : Walk) :
    (followed g w).findSome? g.danglingFault? = none := by
  rw [List.findSome?_eq_none_iff]
  intro d hd
  rcases List.mem_append.1 hd with hd | hd
  · obtain ⟨m, hm, hd⟩ := List.mem_flatMap.1 (List.mem_of_mem_filter hd)
    exact (hg.2.1 m hm).2 d hd
  · obtain ⟨e, -, he⟩ := List.mem_filterMap.1 hd
    exact hg.dependency (List.mem_of_getElem? he)

lemma resolve_eq_complete (hg : g.IsClosed) (hac : ¬ g.IsCyclic) : resolve g =
    complete g ((g.modules.map (Screening.ofModule g)).flatMap (·.log)) (Survey.ofGraph g) := by
  obtain ⟨hw, -⟩ := (Walk.ofGraph_cycle hg).2 hac
  simp only [resolve, findSome?_followed hg, hw.running]

lemma resolve_eq_cyclic (hg : g.IsClosed) (hc : g.IsCyclic) : ∃ c, g.IsLoop c ∧ resolve g =
    .ok (cyclic g ((g.modules.map (Screening.ofModule g)).flatMap (·.log))
      (Survey.ofGraph g) c) := by
  obtain ⟨c, hcycle, hloop⟩ := (Walk.ofGraph_cycle hg).1 hc
  exact ⟨c, hloop, by simp only [resolve, findSome?_followed hg, hcycle]⟩

lemma resolve_of_not_isCyclic (hg : g.IsClosed) (hac : ¬ g.IsCyclic) :
    ∃ o, resolve g = .ok o ∧ o.Decides g := by
  rw [resolve_eq_complete hg hac]
  exact complete_decides hg hac (Screening.only_ofModules g)

lemma decides_of_resolve (hg : g.IsClosed) (hac : ¬ g.IsCyclic) {o : Outcome}
    (h : resolve g = .ok o) : o.Decides g := by
  obtain ⟨o', ho', hdecides⟩ := resolve_of_not_isCyclic hg hac
  obtain rfl := Except.ok.inj (ho'.symm.trans h)
  exact hdecides

namespace Outcome.Decides

variable {o : Outcome} {m : ModuleId}

lemma isReachable_iff (h : o.Decides g) : o.resolution.isReachable m = true ↔ g.IsReached m := by
  by_cases hm : g.IsReached m
  · simp [Resolution.isReachable, h.naming m hm, hm]
  · simp [Resolution.isReachable, h.unreached m hm, hm]

lemma finalName_eq (h : o.Decides g) (hm : g.IsReached m) :
    o.resolution.finalName m = .ok (chosenName g (visibleFromRoots g) m) := by
  rw [Resolution.finalName, h.naming m hm]

lemma isReached_of_finalName (h : o.Decides g) {name : String}
    (hm : o.resolution.finalName m = .ok name) : g.IsReached m := by
  by_contra hm'
  rw [Resolution.finalName, h.unreached m hm'] at hm
  cases hm

lemma isRenamed_iff (h : o.Decides g) : o.resolution.isRenamed g m = true ↔
    g.IsReached m ∧ (otherNames g (visibleFromRoots g) m).Nonempty := by
  by_cases hm : g.IsReached m
  · rw [Resolution.isRenamed, h.naming m hm, Option.any_some, decide_eq_true_eq, ne_eq,
      chosenName_eq_own_iff, ← ne_eq, Finset.nonempty_iff_ne_empty, and_iff_right hm]
  · simp [Resolution.isRenamed, h.unreached m hm, hm]

lemma aliases_eq (h : o.Decides g) (hm : g.IsReached m) :
    o.resolution.aliases m = (mapOf g m).aliases := by
  simp [Resolution.aliases, h.naming m hm]

lemma log_mapOf (h : o.Decides g) (hlog : ∀ d ∈ o.log, d.code.severity ≠ .error)
    (hm : g.IsReached m) : (mapOf g m).log = [] := by
  rw [List.eq_nil_iff_forall_not_mem]
  intro d hd
  have hcode : d.code = .moduleAliasMapConflict := by
    simpa using AliasMap.only_foldl _ _ d hd
  exact hlog d (h.mapped m hm hd) (by rw [hcode]; rfl)

end Outcome.Decides

/-- **Names follow from what is seen.** The surveyed views are the only solution of a recursion
that keeps nothing. A module is reachable if the root modules see it, its final name is the least
one but its own under which they see it, or else its own, and the modules with several such names
are reported, with the names in order. -/
theorem resolve_visible (hg : g.IsClosed) (hac : ¬ g.IsCyclic) :
    (∀ m, g.IsReached m → ((Survey.ofGraph g).view m).sightings = visible g m) ∧
    (∀ see : ModuleId → Finset Sighting, (∀ m, g.IsReached m → see m = visibleStep g see m) ↔
      ∀ m, g.IsReached m → see m = visible g m) ∧
    ∃ o, resolve g = .ok o ∧
      (∀ m, o.resolution.isReachable m = true ↔
        ∃ name, (⟨m, name⟩ : Sighting) ∈ visibleFromRoots g) ∧
      (∀ m, o.resolution.isReachable m = true →
        o.resolution.finalName m = .ok (chosenName g (visibleFromRoots g) m)) ∧
      o.log.filterMap conflict? = g.moduleIds.flatMap (dueConflict g) := by
  obtain ⟨o, ho, hdecides⟩ := resolve_of_not_isCyclic hg hac
  refine ⟨fun m => Survey.sightings_view hg hac, fun see => eq_visibleStep_iff hg hac, o, ho,
    fun m => ?_, fun m hm => ?_, hdecides.conflicts⟩
  · rw [hdecides.isReachable_iff, exists_mem_visibleFromRoots_iff hg hac]
  · exact hdecides.finalName_eq (hdecides.isReachable_iff.1 hm)

/-- An application that asks for the module `Utils` of a library under the name `FooUtils`. -/
def aliased : Graph where
  packages := [
    { identity := "app", display := "app", isRoot := true, modules := [0] },
    { identity := "lib", display := "lib", modules := [1], products := [0] }]
  modules := [
    { name := "App", dependencies := [.product 0 [⟨"Utils", "FooUtils"⟩]] },
    { name := "Utils", owner := 1 }]
  products := [{ name := "Lib", owner := 1, modules := [1] }]

theorem resolve_visible_aliased : aliased.IsClosed ∧ ¬ aliased.IsCyclic ∧
    ∃ o, resolve aliased = .ok o ∧ o.resolution.finalName 1 = .ok "FooUtils" := by
  have hg : aliased.IsClosed := by decide
  have hac : ¬ aliased.IsCyclic := Walk.not_isCyclic hg (by decide)
  have hseen : (⟨1, "FooUtils"⟩ : Sighting) ∈ visibleFromRoots aliased := by decide +kernel
  have hchosen : chosenName aliased (visibleFromRoots aliased) 1 = "FooUtils" := by
    decide +kernel
  obtain ⟨-, -, o, hresolve, hreachable, hname, -⟩ := resolve_visible hg hac
  refine ⟨hg, hac, o, hresolve, ?_⟩
  rw [hname 1 ((hreachable 1).2 ⟨_, hseen⟩), hchosen]

end BuildPlanner.Alias
