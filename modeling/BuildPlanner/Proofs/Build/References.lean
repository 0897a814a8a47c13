import BuildPlanner.Proofs.Build.Cycle

/-!
Which module a name in the sources of a planned module refers to.

A renamed module that is seen under its own name is found by it. A module that keeps its name has
no entry in the alias map, so its name refers to it only as long as no entry for a renamed module
takes that name as its key. Such an entry is not reported.
-/

namespace BuildPlanner.Alias

variable {g : Graph}

/-- A module is reached under no name but its own. -/
def KeepsName (g : Graph) (d : ModuleId) : Prop := otherNames g (visibleFromRoots g) d = ∅

/-- The alias map of `m` has the own name of `d` as the key for a renamed module `o`, which `m`
sees under that name: it is the own name of `o` as well, or the one that stands in for it. -/
def Captures (g : Graph) (m d o : ModuleId) : Prop :=
  (otherNames g (visibleFromRoots g) o).Nonempty ∧
    (⟨o, (g.moduleAt d).name⟩ : Sighting) ∈ visible g m ∧
    ((g.moduleAt o).name = (g.moduleAt d).name ∨
      GivesWay g (visible g m) o ∧ chosenName g (visible g m) o = (g.moduleAt d).name ∧
        chosenName g (visibleFromRoots g) o ≠ (g.moduleAt d).name)

lemma chosenName_ne_own {seen : Finset Sighting} {d : ModuleId}
    (h : (otherNames g seen d).Nonempty) : chosenName g seen d ≠ (g.moduleAt d).name :=
  (mem_otherNames.1 (chosenName_of_nonempty h)).2

/-- The entry for a module other than `d` has the own name of `d` as its key exactly if that
module captures it, and then the value is another name. -/
lemma mem_demanded_own {m d o : ModuleId} {v : String}
    (hd : (⟨d, (g.moduleAt d).name⟩ : Sighting) ∈ visible g m) (hne : d ≠ o)
    (ho : ∃ name, (⟨o, name⟩ : Sighting) ∈ visible g m)
    (hrenamed : (otherNames g (visibleFromRoots g) o).Nonempty) :
    ((g.moduleAt d).name, v) ∈ demanded g (visibleFromRoots g) (visible g m) o ↔
      Captures g m d o ∧ v = chosenName g (visibleFromRoots g) o := by
  rw [mem_demanded, and_comm]
  refine and_congr_left fun hv => ⟨?_, ?_⟩
  · rintro (⟨hstays, hname⟩ | ⟨hgives, hname, hother⟩)
    · -- The own name of `o` belongs to `d` too, so it is kept only if `m` sees `o` under it.
      have hshared : ∃ s ∈ visible g m, s.module ≠ o ∧
          (g.moduleAt s.module).name = (g.moduleAt o).name := ⟨_, hd, hne, hname⟩
      have hseen : (⟨o, (g.moduleAt o).name⟩ : Sighting) ∈ visible g m := by
        by_contra hseen
        exact hstays ⟨hshared, hseen⟩
      rw [← hname] at hseen
      exact ⟨hrenamed, hseen, .inl hname.symm⟩
    · have hseen : (otherNames g (visible g m) o).Nonempty := by
        obtain ⟨name, hs⟩ := ho
        refine ⟨name, mem_otherNames.2 ⟨hs, ?_⟩⟩
        rintro rfl
        exact hgives.2 hs
      have hmem := (mem_otherNames.1 (chosenName_of_nonempty hseen)).1
      rw [← hname] at hmem
      exact ⟨hrenamed, hmem, .inr ⟨hgives, hname.symm, hv ▸ hother.symm⟩⟩
  · rintro ⟨-, hseen, hname | ⟨hgives, hname, hother⟩⟩
    · rw [← hname] at hseen
      exact .inl ⟨fun h => h.2 hseen, hname.symm⟩
    · exact .inr ⟨hgives, hname.symm, hv ▸ hother.symm⟩

lemma Captures.ne {m d o : ModuleId} (h : Captures g m d o) :
    chosenName g (visibleFromRoots g) o ≠ (g.moduleAt d).name := by
  obtain ⟨hrenamed, -, hname | ⟨-, -, hne⟩⟩ := h
  · rw [← hname]
    exact chosenName_ne_own hrenamed
  · exact hne

lemma getD_get?_eq_iff {m d : ModuleId}
    (hself : (⟨m, (g.moduleAt m).name⟩ : Sighting) ∈ visible g m)
    (hrange : ∀ s ∈ visible g m, s.module < g.modules.length)
    (hlog : (mapOf g m).log = [])
    (hd : (⟨d, (g.moduleAt d).name⟩ : Sighting) ∈ visible g m) :
    ((mapOf g m).aliases.get? (g.moduleAt d).name).getD (g.moduleAt d).name =
        chosenName g (visibleFromRoots g) d ↔
      ¬ (KeepsName g d ∧ ∃ o, Captures g m d o) := by
  have hget : ∀ v, (mapOf g m).aliases.get? (g.moduleAt d).name = some v ↔
      ∃ o, (∃ name, (⟨o, name⟩ : Sighting) ∈ visible g m) ∧
        (otherNames g (visibleFromRoots g) o).Nonempty ∧
          ((g.moduleAt d).name, v) ∈ demanded g (visibleFromRoots g) (visible g m) o := by
    intro v
    rw [mapOf, AliasMap.get?_foldl_add hlog, mem_demandedBy hself hrange]
  by_cases hkeeps : KeepsName g d
  · have hown : chosenName g (visibleFromRoots g) d = (g.moduleAt d).name :=
      chosenName_eq_own_iff.2 hkeeps
    have hother : ∀ o, (otherNames g (visibleFromRoots g) o).Nonempty → d ≠ o := by
      rintro o ho rfl
      exact ho.ne_empty hkeeps
    rw [hown, iff_not_comm, and_iff_right hkeeps]
    refine ⟨?_, fun hne => ?_⟩
    · rintro ⟨o, ho⟩
      have hentry := (mem_demanded_own hd (hother o ho.1) ⟨_, ho.2.1⟩ ho.1).2 ⟨ho, rfl⟩
      rw [(hget _).2 ⟨o, ⟨_, ho.2.1⟩, ho.1, hentry⟩, Option.getD_some]
      exact ho.ne
    · cases hvalue : (mapOf g m).aliases.get? (g.moduleAt d).name with
      | none =>
        rw [hvalue, Option.getD_none] at hne
        exact absurd rfl hne
      | some v =>
        obtain ⟨o, hseen, ho, hentry⟩ := (hget v).1 hvalue
        exact ⟨o, ((mem_demanded_own hd (hother o ho) hseen ho).1 hentry).1⟩
  · have hrenamed : (otherNames g (visibleFromRoots g) d).Nonempty :=
      Finset.nonempty_iff_ne_empty.2 hkeeps
    have hentry : ((g.moduleAt d).name, chosenName g (visibleFromRoots g) d) ∈
        demanded g (visibleFromRoots g) (visible g m) d :=
      mem_demanded.2 ⟨rfl, .inl ⟨fun h => h.2 hd, rfl⟩⟩
    rw [(hget _).2 ⟨d, ⟨_, hd⟩, hrenamed, hentry⟩, Option.getD_some]
    simp [hkeeps]

end BuildPlanner.Alias

namespace BuildPlanner.Build

open Alias (Captures KeepsName Sighting chosenName visible visibleFromRoots)
open Diagnostic (Engine)

variable {g : Graph} {target host : Parameters}

/-- **A name refers to its module unless another one captures it.** In the sources of a planned
module, the own name of a module that is seen under it stands for that module's final name, except
that a renamed module may capture the name of one that keeps its own. -/
theorem reference_iff_not_captured (hg : g.IsClosed) {engine : Engine} {a : Attempt} {plan : Plan}
    (h : create g target host engine = .ok a) (hplan : a.plan = some plan) {k : ModuleKey}
    {m : PlannedModule} (hm : plan.module? k = some m) {d : ModuleId}
    (hsees : (⟨d, (g.moduleAt d).name⟩ : Sighting) ∈ visible g k.module) :
    ∃ final, plan.resolution.finalName d = .ok final ∧
      ((m.aliases.get? (g.moduleAt d).name).getD (g.moduleAt d).name = final ↔
        ¬ (KeepsName g d ∧ ∃ o, Captures g k.module d o)) := by
  obtain ⟨hac, o, -, hdecides, herror, hlaid⟩ := create_decides hg h hplan
  obtain ⟨hname, haliases⟩ := hlaid.finalName_of_module? hm
  have hk : g.IsReached k.module := hdecides.isReached_of_finalName hname
  have hreached : ∀ n name, (⟨n, name⟩ : Sighting) ∈ visible g k.module → g.IsReached n :=
    fun n name hn => hk.trans ((Alias.exists_mem_visible_iff hg hac hk).1 ⟨name, hn⟩)
  have hself : (⟨k.module, (g.moduleAt k.module).name⟩ : Sighting) ∈ visible g k.module :=
    (Alias.mem_visible_iff hg hac hk).2 (.inl rfl)
  have hrange : ∀ s ∈ visible g k.module, s.module < g.modules.length := fun s hs =>
    hg.reached_lt (hreached s.module s.name hs)
  refine ⟨chosenName g (visibleFromRoots g) d, ?_, ?_⟩
  · rw [hlaid.resolution]
    exact hdecides.finalName_eq (hreached d _ hsees)
  · rw [haliases, hdecides.aliases_eq hk]
    exact Alias.getD_get?_eq_iff hself hrange (hdecides.log_mapOf herror hk) hsees

/-- `Client` sees two modules `Utils`, one of which `Tool` asks for under another name. -/
def borrowed : Graph where
  packages := [
    { identity := "app", display := "app", isRoot := true, modules := [0, 1] },
    { identity := "b", display := "b", modules := [2], products := [0] },
    { identity := "c", display := "c", modules := [3], products := [1] }]
  modules := [
    { name := "Client", dependencies := [.product 0 [], .product 1 []] },
    { name := "Tool", dependencies := [.product 1 [⟨"Utils", "FooUtils"⟩]] },
    { name := "Utils", owner := 1 },
    { name := "Utils", owner := 2 }]
  products := [
    { name := "BLib", owner := 1, modules := [2] },
    { name := "CLib", owner := 2, modules := [3] }]

/-- The module that keeps its name is captured by the other one, so the name in the sources of
`Client` refers to that. -/
theorem reference_iff_not_captured_borrowed : borrowed.IsClosed ∧ ∃ a plan m final,
    create borrowed (.debug .target) (.debug .host) {} = .ok a ∧ a.plan = some plan ∧
      plan.module? ⟨0, .target⟩ = some m ∧ plan.resolution.finalName 2 = .ok final ∧
        (m.aliases.get? "Utils").getD "Utils" ≠ final := by
  have hg : borrowed.IsClosed := by decide
  obtain ⟨a, plan, hcreate, hplan, hplanned⟩ : ∃ a plan, create borrowed (.debug .target)
      (.debug .host) {} = .ok a ∧ a.plan = some plan ∧ _ :=
    exists_plan (fun plan => (plan.module? ⟨0, .target⟩).isSome) (by decide +kernel)
  obtain ⟨m, hm⟩ := Option.isSome_iff_exists.1 hplanned
  have hsees : (⟨2, "Utils"⟩ : Sighting) ∈ visible borrowed 0 := by decide +kernel
  obtain ⟨final, hfinal, hiff⟩ :=
    reference_iff_not_captured hg hcreate hplan hm (d := 2) hsees
  have hkeeps : KeepsName borrowed 2 := by
    unfold KeepsName
    decide +kernel
  have hcaptures : Captures borrowed 0 2 3 := by
    unfold Captures
    decide +kernel
  exact ⟨hg, a, plan, m, final, hcreate, hplan, hm, hfinal,
    fun h => hiff.1 h ⟨hkeeps, 3, hcaptures⟩⟩

/-- A module that keeps its name and is seen under it may yet not be what the name refers to. -/
theorem kept_name_captured : ∃ a plan m,
    create borrowed (.debug .target) (.debug .host) {} = .ok a ∧ a.plan = some plan ∧
      plan.module? ⟨0, .target⟩ = some m ∧ (⟨2, "Utils"⟩ : Sighting) ∈ visible borrowed 0 ∧
        (plan.resolution.finalName 2).toOption = some "Utils" ∧
        m.aliases.get? "Utils" = some "FooUtils" := by
  obtain ⟨a, plan, hcreate, hplan, hp⟩ : ∃ a plan, create borrowed (.debug .target)
      (.debug .host) {} = .ok a ∧ a.plan = some plan ∧ _ :=
    exists_plan (fun plan => (plan.module? ⟨0, .target⟩).any (fun m =>
      m.aliases.get? "Utils" = some "FooUtils") &&
        (plan.resolution.finalName 2).toOption = some "Utils") (by decide +kernel)
  obtain ⟨hm, hfinal⟩ := Bool.and_eq_true_iff.1 hp
  obtain ⟨m, hm, haliases⟩ := (Option.any_eq_true _ _).1 hm
  exact ⟨a, plan, m, hcreate, hplan, hm, by decide +kernel, of_decide_eq_true hfinal,
    of_decide_eq_true haliases⟩

end BuildPlanner.Build
