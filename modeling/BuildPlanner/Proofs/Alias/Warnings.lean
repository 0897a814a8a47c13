import BuildPlanner.Proofs.Alias.Entries
import BuildPlanner.Proofs.Alias.Notices

/-!
What a resolution warns of, and why.

The walk settles every dependency of every reached module, and each of them once, so that what a
survey warns of can be told from the graph (`Survey.warns_ofGraph`). What is left is to find these
warnings among the reports of a resolution, and to see that a module does not get another name
unnoticed: wherever a name that is not its own is seen, some dependency has given the module
another one (`exists_tries_of_mem_visible`).
-/

namespace BuildPlanner.Alias

open Diagnostic (Code Engine Record)

variable {g : Graph} {o : Outcome}

/-! ### Definitions -/

/-- A module of a package too old for aliases that some dependency is to rename. -/
def IsRefused (g : Graph) (d : ModuleId) : Prop :=
  (g.ownerOf d).tools.before .moduleAliasing = true ∧
    ∃ e p s, g.IsReached e.consumer ∧ Tries g e p s ∧ s.module = d

/-- A module with other sources than Swift that some dependency on a product renames. -/
def IsMixed (g : Graph) (x : ModuleId × ProductId) : Prop :=
  (g.ownerOf x.1).tools.before .moduleAliasing = false ∧
    (g.moduleAt x.1).sources.isSubstitutable = false ∧
      ∃ e s, g.IsReached e.consumer ∧ Tries g e x.2 s ∧ s.module = x.1

/-- The records of a kind are warnings, one for each thing that gives cause. -/
def WarnsOnce {α : Type} (rs : List Record) (c : Code) (warning : α → Diagnostic)
    (cause : α → Prop) : Prop :=
  ∃ xs : List α, xs.Nodup ∧ (∀ x, x ∈ xs ↔ cause x) ∧
    rs.filter (·.diagnostic.code = c) = xs.map fun x => ⟨warning x, .warning, false⟩

lemma WarnsOnce.mem {α : Type} {rs : List Record} {c : Code} {warning : α → Diagnostic}
    {cause : α → Prop} (h : WarnsOnce rs c warning cause) {x : α} (hx : cause x) :
    (⟨warning x, .warning, false⟩ : Record) ∈ rs := by
  obtain ⟨xs, -, hxs, hrs⟩ := h
  have hmem : (⟨warning x, .warning, false⟩ : Record) ∈ rs.filter (·.diagnostic.code = c) := by
    rw [hrs]
    exact List.mem_map.2 ⟨x, (hxs x).2 hx, rfl⟩
  exact (List.mem_filter.1 hmem).1

/-! ### Names other than a module's own -/

lemma exists_tries_of_mem_visible (hg : g.IsClosed) (hac : ¬ g.IsCyclic) {m d : ModuleId}
    (hm : g.IsReached m) {name : String} (hs : (⟨d, name⟩ : Sighting) ∈ visible g m)
    (hname : name ≠ (g.moduleAt d).name) :
    (g.ownerOf d).tools.supportsModuleAliasing = true ∧
      ∃ e p x, g.IsReached e.consumer ∧ Tries g e p x ∧ x.module = d := by
  induction acc_of_isReached hg hac hm generalizing name with
  | intro m _ ih =>
    rcases (mem_visible_iff hg hac hm).1 hs with hown | ⟨i, dep, hd, hbrought⟩
    · -- `m` itself has its own name in its view.
      obtain ⟨rfl, rfl⟩ := Sighting.mk.inj hown
      exact absurd rfl hname
    · cases dep with
      | module n =>
        have hlead : g.Leads m n := Graph.leads_of_getElem? hd (by simp [Graph.targets])
        exact ih n hlead (hm.step hlead) hbrought hname
      | product p rs =>
        obtain ⟨old, hold, hnew⟩ := mem_relabelled.1 hbrought
        by_cases hkept : relabelledName g (survivors g m i) (seenIn g p) ⟨d, old⟩ = old
        · obtain rfl : old = name := hkept.symm.trans hnew
          obtain ⟨n, hn, hseen⟩ := mem_seenIn.1 hold
          have hlead : g.Leads m n := Graph.leads_of_getElem? hd hn
          exact ih n hlead (hm.step hlead) hseen hname
        · -- The layer of this dependency changes the name.
          obtain ⟨htools, hchanges⟩ := relabelledName_ne_iff.1 hkept
          exact ⟨htools, ⟨m, i⟩, p, ⟨d, old⟩, hm, ⟨⟨rs, hd⟩, hold, hchanges⟩, rfl⟩

/-- A module with other sources than Swift whose final name is not its own is renamed somewhere. -/
lemma exists_isMixed (hg : g.IsClosed) (hac : ¬ g.IsCyclic) (ho : o.Decides g) {d : ModuleId}
    {name : String} (hfinal : o.resolution.finalName d = .ok name)
    (hname : name ≠ (g.moduleAt d).name)
    (hsources : (g.moduleAt d).sources.isSubstitutable = false) : ∃ p, IsMixed g (d, p) := by
  have hd := ho.isReached_of_finalName hfinal
  obtain rfl := Except.ok.inj (hfinal.symm.trans (ho.finalName_eq hd))
  have hother : chosenName g (visibleFromRoots g) d ∈ otherNames g (visibleFromRoots g) d :=
    chosenName_of_nonempty (Finset.nonempty_iff_ne_empty.2 (chosenName_eq_own_iff.not.1 hname))
  obtain ⟨hseen, -⟩ := mem_otherNames.1 hother
  obtain ⟨r, hr, hvisible⟩ := Finset.mem_biUnion.1 hseen
  obtain ⟨htools, e, p, x, he, htries, hx⟩ := exists_tries_of_mem_visible hg hac
    (Graph.isReached_root (List.mem_toFinset.1 hr)) hvisible hname
  have hyoung : (g.ownerOf d).tools.before .moduleAliasing = false := by
    rw [Version.before, Bool.not_eq_false']
    exact htools
  exact ⟨p, hyoung, hsources, e, x, he, htries, hx⟩

/-! ### Warnings of a resolution -/

lemma filter_log_of_mem_surveyCodes (hg : g.IsClosed) (hac : ¬ g.IsCyclic) (h : resolve g = .ok o)
    {c : Code} (hc : c ∈ surveyCodes) :
    o.log.filter (·.code = c) = (Survey.ofGraph g).notices.log.filter (·.code = c) := by
  obtain ⟨conflicts, hreports⟩ := resolve_reports hg hac h
  have hparts := hreports.parts hg hac
  have hother (codes : List Code) (hcodes : ∀ c ∈ surveyCodes, c ∉ codes) : c ∉ codes :=
    hcodes c hc
  rw [hreports.log, List.filter_append, List.filter_append, List.filter_append,
    List.filter_append, hparts.screened.filter_eq_nil (hother _ (by decide)),
    hparts.conflicting.filter_eq_nil (hother _ (by decide)),
    hparts.mapped.filter_eq_nil (hother _ (by decide)),
    hparts.duplicates.filter_eq_nil (hother _ (by decide))]
  simp

lemma filter_records_of_mem_surveyCodes (hg : g.IsClosed) (hac : ¬ g.IsCyclic)
    (h : resolve g = .ok o) {engine : Engine} (hplain : engine.policy = {})
    (he : engine.hadFatal = false) {c : Code} (hc : c ∈ surveyCodes) :
    (o.log.filterMap engine.verdict).filter (·.diagnostic.code = c) =
      ((Survey.ofGraph g).notices.log.filter (·.code = c)).map (⟨·, .warning, false⟩) := by
  rw [Engine.filter_filterMap_verdict fun d => d.code = c,
    filter_log_of_mem_surveyCodes hg hac h hc]
  refine Engine.filterMap_verdict_of_warning he hplain fun d hd => ?_
  have hcode : d.code = c := by simpa using (List.mem_filter.1 hd).2
  have hwarning : ∀ c ∈ surveyCodes, c.severity = .warning := by decide
  rw [hcode, hwarning c hc]

lemma Tries.mem_settled_iff (hg : g.IsClosed) (hac : ¬ g.IsCyclic) {e : Edge} {p : ProductId}
    {s : Sighting} (h : Tries g e p s) :
    e ∈ (Walk.ofGraph g).settled ↔ g.IsReached e.consumer := by
  obtain ⟨rs, hd⟩ := h.depends
  exact Survey.mem_settled_iff hg hac hd

lemma mem_mixed_iff (hg : g.IsClosed) (hac : ¬ g.IsCyclic) {x : ModuleId × ProductId} :
    x ∈ (Survey.ofGraph g).notices.mixed ↔ IsMixed g x := by
  obtain ⟨d, p⟩ := x
  rw [(Survey.warns_ofGraph hg hac).mixed, IsMixed, Version.before, Bool.not_eq_false']
  refine and_congr Iff.rfl (and_congr_right fun _ => exists_congr fun e => ?_)
  rw [← exists_and_left]
  refine exists_congr fun s => ⟨fun ⟨he, htries, hs⟩ => ?_, fun ⟨he, htries, hs⟩ => ?_⟩
  · exact ⟨(htries.mem_settled_iff hg hac).1 he, htries, hs⟩
  · exact ⟨(htries.mem_settled_iff hg hac).2 he, htries, hs⟩

lemma mem_refused_iff (hg : g.IsClosed) (hac : ¬ g.IsCyclic) {d : ModuleId} :
    d ∈ (Survey.ofGraph g).notices.refused ↔ IsRefused g d := by
  rw [(Survey.warns_ofGraph hg hac).refused, IsRefused, Version.before, Bool.not_eq_true']
  refine and_congr Iff.rfl (exists_congr fun e => ⟨?_, ?_⟩)
  · rintro ⟨he, p, s, htries, hs⟩
    exact ⟨p, s, (htries.mem_settled_iff hg hac).1 he, htries, hs⟩
  · rintro ⟨p, s, he, htries, hs⟩
    exact ⟨(htries.mem_settled_iff hg hac).2 he, p, s, htries, hs⟩

/-- **The warnings of a resolution are complete, and none is repeated.** An engine without flags
that reported nothing fatal before records, where no cycle is reached, one warning for each module
and product such that the module has other sources than Swift and is renamed behind the product, one
for each module of a package too old for aliases that some dependency is to rename, and one for each
surviving request that applies to nothing. In particular every module with other sources than Swift
whose final name is not its own is among those warned of. -/
theorem warnings_complete (hg : g.IsClosed) (hac : ¬ g.IsCyclic) :
    ∃ o, resolve g = .ok o ∧ ∀ engine : Engine, engine.policy = {} → engine.hadFatal = false →
      ∃ new, (engine.diagnoseAll o.log).emitted = engine.emitted ++ new ∧
        WarnsOnce new .moduleAliasNonSubstitutable (mixture g) (IsMixed g) ∧
        WarnsOnce new .moduleAliasingRequiresTools (refusal g) (IsRefused g) ∧
        WarnsOnce new .moduleAliasUnapplied (idleness g) (fun x =>
          g.IsReached x.1.edge.consumer ∧ IsUnapplied g x.1 x.2) ∧
        ∀ d name, o.resolution.finalName d = .ok name → name ≠ (g.moduleAt d).name →
          (g.moduleAt d).sources.isSubstitutable = false →
            ∃ p, (⟨mixture g (d, p), .warning, false⟩ : Record) ∈ new := by
  obtain ⟨o, ho, hdecides⟩ := resolve_of_not_isCyclic hg hac
  refine ⟨o, ho, fun engine hplain he => ⟨_, (Engine.diagnoseAll_spec he hdecides.calm).1, ?_⟩⟩
  have hwarns := Survey.warns_ofGraph hg hac
  have hrecords {c : Code} (hc : c ∈ surveyCodes) :
      (o.log.filterMap engine.verdict).filter (·.diagnostic.code = c) = _ :=
    filter_records_of_mem_surveyCodes hg hac ho hplain he hc
  have hmixed : WarnsOnce (o.log.filterMap engine.verdict) .moduleAliasNonSubstitutable
      (mixture g) (IsMixed g) := by
    refine ⟨_, List.nodup_reverse.2 hwarns.recorded.mixed_nodup, fun x => ?_, ?_⟩
    · rw [List.mem_reverse, mem_mixed_iff hg hac]
    · rw [hrecords (by decide), hwarns.recorded.mixed_log, List.map_map]
      rfl
  refine ⟨hmixed, ?_, ?_, fun d name hfinal hname hsources => ?_⟩
  · refine ⟨_, List.nodup_reverse.2 hwarns.recorded.refused_nodup, fun d => ?_, ?_⟩
    · rw [List.mem_reverse, mem_refused_iff hg hac]
    · rw [hrecords (by decide), hwarns.recorded.refused_log, List.map_map]
      rfl
  · obtain ⟨xs, hxs, hmem, hlog⟩ := hwarns.unapplied
    refine ⟨xs, hxs, fun ⟨u, r⟩ => (hmem u r).trans (and_congr_left fun hu => ?_), ?_⟩
    · obtain ⟨rs, hd⟩ := hu.depends
      exact Survey.mem_settled_iff hg hac hd
    · rw [hrecords (by decide), hlog, List.map_map]
      rfl
  · obtain ⟨p, hp⟩ := exists_isMixed hg hac hdecides hfinal hname hsources
    exact ⟨p, hmixed.mem hp⟩

/-- An application that asks for a module with C sources and for one of a package too old for
aliases under other names, and for a module that the product does not have. -/
def strained : Graph where
  packages := [
    { identity := "app", display := "app", isRoot := true, modules := [0] },
    { identity := "lib", display := "lib", modules := [1], products := [0] },
    { identity := "old", display := "old", tools := ⟨[5, 6]⟩, modules := [2], products := [1] }]
  modules := [
    { name := "App", dependencies := [
      .product 0 [⟨"Utils", "FooUtils"⟩, ⟨"Core", "FooCore"⟩],
      .product 1 [⟨"Logging", "OldLogging"⟩]] },
    { name := "Utils", owner := 1, sources := { swift := true, c := true } },
    { name := "Logging", owner := 2 }]
  products := [
    { name := "Lib", owner := 1, modules := [1] },
    { name := "Old", owner := 2, modules := [2] }]

theorem warnings_complete_strained : strained.IsClosed ∧ ¬ strained.IsCyclic ∧
    ∃ o, resolve strained = .ok o ∧
      ([mixture strained (1, 0), refusal strained 2,
          idleness strained (⟨⟨0, 0⟩, 0⟩, ⟨"Core", "FooCore"⟩)].map (⟨·, .warning, false⟩)) ⊆
        (({} : Engine).diagnoseAll o.log).emitted := by
  have hg : strained.IsClosed := by decide
  have hac : ¬ strained.IsCyclic := Walk.not_isCyclic hg (by decide)
  have happ : strained.IsReached 0 := Graph.isReached_root (by decide)
  obtain ⟨o, ho, hengine⟩ := warnings_complete hg hac
  obtain ⟨new, hnew, hmixed, hrefused, hunapplied, -⟩ := hengine {} rfl rfl
  have hutils : Tries strained ⟨0, 0⟩ 0 ⟨1, "Utils"⟩ :=
    ⟨⟨_, rfl⟩, by decide +kernel, ⟨"Utils", "FooUtils"⟩, by decide +kernel, by decide⟩
  have hlogging : Tries strained ⟨0, 1⟩ 1 ⟨2, "Logging"⟩ :=
    ⟨⟨_, rfl⟩, by decide +kernel, ⟨"Logging", "OldLogging"⟩, by decide +kernel, by decide⟩
  have hcore : IsUnapplied strained ⟨⟨0, 0⟩, 0⟩ ⟨"Core", "FooCore"⟩ :=
    ⟨⟨_, rfl⟩, by decide +kernel, by decide +kernel, by decide +kernel⟩
  refine ⟨hg, hac, o, ho, ?_⟩
  rw [hnew]
  simp only [List.map_cons, List.map_nil, List.cons_subset, List.nil_subset, and_true]
  refine ⟨?_, ?_, ?_⟩
  · exact List.mem_append_right _ (hmixed.mem ⟨by decide, by decide, _, _, happ, hutils, rfl⟩)
  · exact List.mem_append_right _ (hrefused.mem ⟨by decide, _, _, _, happ, hlogging, rfl⟩)
  · exact List.mem_append_right _ (hunapplied.mem ⟨happ, hcore⟩)

end BuildPlanner.Alias
