import BuildPlanner.Proofs.Alias.Errors
import BuildPlanner.Proofs.Diagnostic.Engine

/-!
What the alias map of each module holds, and which clashes of its entries are reported.

The entries that a module demands are stated in terms of a resolution: which modules are renamed,
what they are called in the end, and under which names the module sees them. A map under
construction drops an entry whose key is taken, so later entries are compared with what is left.
No clash is missed for that: up to the first report the map holds all entries that came so far.
-/

namespace BuildPlanner.Alias

open Diagnostic (Code Engine)

variable {g : Graph} {o : Outcome}

/-! ### Clashes -/

/-- Two entries with one key but different values, or one value but different keys. -/
def Clash (e f : String × String) : Prop := e.1 = f.1 ∧ e.2 ≠ f.2 ∨ e.2 = f.2 ∧ e.1 ≠ f.1

/-- The report of two entries that clash: what they share, and in what they differ. -/
def mapConflict (module : String) (e f : String × String) : Diagnostic :=
  if e.1 = f.1 then .moduleAliasMapConflict module e.1 [e.2, f.2]
  else .moduleAliasMapConflict module e.2 [e.1, f.1]

namespace AliasMap

lemma not_consistent_iff {es : List (String × String)} :
    ¬ Consistent es ↔ ∃ e ∈ es, ∃ f ∈ es, Clash e f := by
  unfold Consistent Clash
  push Not
  refine exists_congr fun e => and_congr_right fun _ => exists_congr fun f =>
    and_congr_right fun _ => ?_
  tauto

/-- What a map holds are entries of the list, and what is reported are clashes of two of them. -/
structure DrawsOn (module : String) (es : List (String × String)) (t : AliasMap) : Prop where
  entry (k v : String) (h : t.aliases.get? k = some v) : (k, v) ∈ es
  report (d : Diagnostic) (hd : d ∈ t.log) :
    ∃ e ∈ es, ∃ f ∈ es, Clash e f ∧ d = mapConflict module e f

variable {module : String} {es : List (String × String)} {t : AliasMap}

lemma DrawsOn.append (h : t.DrawsOn module es) (fs : List (String × String)) :
    t.DrawsOn module (es ++ fs) := by
  refine ⟨fun k v hk => List.mem_append_left _ (h.entry k v hk), fun d hd => ?_⟩
  obtain ⟨e, he, f, hf, hclash⟩ := h.report d hd
  exact ⟨e, List.mem_append_left _ he, f, List.mem_append_left _ hf, hclash⟩

lemma DrawsOn.reporting (h : t.DrawsOn module es) {e f : String × String} (he : e ∈ es)
    (hf : f ∈ es) (hclash : Clash e f) :
    DrawsOn module es { t with log := t.log ++ [mapConflict module e f] } := by
  refine ⟨h.entry, fun d hd => ?_⟩
  rcases List.mem_append.1 hd with hd | hd
  · exact h.report d hd
  · exact ⟨e, he, f, hf, hclash, List.mem_singleton.1 hd⟩

lemma DrawsOn.inserting (h : t.DrawsOn module es) {e : String × String} (he : e ∈ es)
    (hnew : t.aliases.get? e.1 = none) :
    DrawsOn module es { t with aliases := t.aliases.insertNew e.1 e.2 } := by
  refine ⟨fun k v hk => ?_, h.report⟩
  dsimp only at hk
  rw [SortedMap.get?_insertNew, hnew, Option.getD_none] at hk
  split at hk
  · next hkey =>
    obtain rfl := Option.some.inj hk
    obtain rfl := hkey
    exact he
  · exact h.entry k v hk

lemma DrawsOn.add (h : t.DrawsOn module es) (e : String × String) :
    (t.add module e).DrawsOn module (es ++ [e]) := by
  have h' := h.append [e]
  have he : e ∈ es ++ [e] := by simp
  unfold AliasMap.add
  cases hkey : t.aliases.get? e.1 with
  | some value =>
    dsimp only
    split
    · exact h'
    · next hne =>
      have hold : (e.1, value) ∈ es ++ [e] := h'.entry _ _ hkey
      simpa [mapConflict] using h'.reporting hold he (.inl ⟨rfl, hne⟩)
  | none =>
    dsimp only
    have hinserted := h'.inserting he hkey
    cases hfind : t.aliases.entries.find? (·.2 = e.2) with
    | none => exact hinserted
    | some other =>
      -- The clash is with an entry that the map held before, which is one of `es`.
      have hget : t.aliases.get? other.1 = some other.2 :=
        SortedMap.get?_eq_some_iff.2 (List.mem_of_find?_eq_some hfind)
      have hvalue : other.2 = e.2 := by simpa using List.find?_some hfind
      have hne : other.1 ≠ e.1 := by
        intro hsame
        rw [hsame, hkey] at hget
        cases hget
      have hreport := hinserted.reporting (h'.entry _ _ hget) he (.inr ⟨hvalue, hne⟩)
      simpa [mapConflict, hne, hvalue] using hreport

/-- **A map draws on the entries that are added, also where some of them clash.** -/
theorem drawsOn_foldl_add : (es.foldl (add module) {}).DrawsOn module es := by
  induction es using List.reverseRecOn with
  | nil => exact ⟨by simp, by simp⟩
  | append_singleton es e ih =>
    rw [List.foldl_append]
    exact ih.add e

end AliasMap

/-! ### Demands -/

/-- An entry that the alias map of `m` has to have if modules are named as `r` says. A renamed
module is entered under its own name, unless `m` does not see it under that name while another
module in sight has it; then the least name under which `m` sees it takes its place. -/
inductive Demands (g : Graph) (r : Resolution) (m : ModuleId) : String × String → Prop
  | own {final : String} (hrenamed : r.isRenamed g m = true) (hfinal : r.finalName m = .ok final) :
    Demands g r m ((g.moduleAt m).name, final)
  | other {d : ModuleId} {final : String} (hd : d ≠ m)
    (hseen : ∃ name, (⟨d, name⟩ : Sighting) ∈ visible g m) (hrenamed : r.isRenamed g d = true)
    (hfinal : r.finalName d = .ok final)
    (hname : (∀ s ∈ visible g m, s.module ≠ d →
        (g.moduleAt s.module).name ≠ (g.moduleAt d).name) ∨
      (⟨d, (g.moduleAt d).name⟩ : Sighting) ∈ visible g m) :
    Demands g r m ((g.moduleAt d).name, final)
  | standIn {d : ModuleId} {s : Sighting} {name final : String} (hd : d ≠ m)
    (hrenamed : r.isRenamed g d = true) (hfinal : r.finalName d = .ok final)
    (hs : s ∈ visible g m) (hother : s.module ≠ d)
    (hshared : (g.moduleAt s.module).name = (g.moduleAt d).name)
    (hown : (⟨d, (g.moduleAt d).name⟩ : Sighting) ∉ visible g m)
    (hleast : IsLeast {n | (⟨d, n⟩ : Sighting) ∈ visible g m} name) (hne : name ≠ final) :
    Demands g r m (name, final)

lemma Demands.exists_finalName {r : Resolution} {m : ModuleId} {k v : String}
    (h : Demands g r m (k, v)) (hself : (⟨m, (g.moduleAt m).name⟩ : Sighting) ∈ visible g m) :
    ∃ d name, (⟨d, name⟩ : Sighting) ∈ visible g m ∧ r.finalName d = .ok v := by
  cases h with
  | own _ hfinal => exact ⟨m, _, hself, hfinal⟩
  | other _ hseen _ hfinal _ =>
    obtain ⟨name, hname⟩ := hseen
    exact ⟨_, name, hname, hfinal⟩
  | standIn _ _ hfinal _ _ _ _ hleast _ => exact ⟨_, _, hleast.1, hfinal⟩

lemma isLeast_chosenName {view : Finset Sighting} {d : ModuleId} {name : String}
    (hd : (⟨d, name⟩ : Sighting) ∈ view) (hown : (⟨d, (g.moduleAt d).name⟩ : Sighting) ∉ view) :
    IsLeast {n | (⟨d, n⟩ : Sighting) ∈ view} (chosenName g view d) := by
  have hmem {n : String} : n ∈ otherNames g view d ↔ (⟨d, n⟩ : Sighting) ∈ view := by
    rw [mem_otherNames, and_iff_left_iff_imp]
    rintro hn rfl
    exact hown hn
  have hne : (otherNames g view d).Nonempty := ⟨name, hmem.2 hd⟩
  refine ⟨hmem.1 (chosenName_of_nonempty hne), fun n hn => ?_⟩
  obtain ⟨least, hleast⟩ := Finset.min_of_nonempty hne
  rw [chosenName, hleast]
  exact Finset.min_le_of_eq (hmem.2 hn) hleast

lemma demands_iff (hg : g.IsClosed) (hac : ¬ g.IsCyclic) (ho : o.Decides g) {m : ModuleId}
    (hm : g.IsReached m) {e : String × String} : Demands g o.resolution m e ↔
      e ∈ demandedBy g (visibleFromRoots g) (visible g m) m := by
  have hself : (⟨m, (g.moduleAt m).name⟩ : Sighting) ∈ visible g m :=
    (mem_visible_iff hg hac hm).2 (.inl rfl)
  have hreached {d : ModuleId} (hd : ∃ name, (⟨d, name⟩ : Sighting) ∈ visible g m) :
      g.IsReached d := hm.trans ((exists_mem_visible_iff hg hac hm).1 hd)
  have hfinal_eq {d : ModuleId} {final : String} (hd : g.IsReached d) :
      o.resolution.finalName d = .ok final ↔ final = chosenName g (visibleFromRoots g) d := by
    rw [ho.finalName_eq hd, Except.ok.injEq, eq_comm]
  rw [mem_demandedBy_visible hg hac hm]
  constructor
  · rintro (⟨hrenamed, hfinal⟩ | ⟨hd, hseen, hrenamed, hfinal, hname⟩ |
      ⟨hd, hrenamed, hfinal, hs, hother, hshared, hown, hleast, hne⟩)
    · -- `m` itself, under the name it has.
      exact ⟨m, ⟨_, hself⟩, (ho.isRenamed_iff.1 hrenamed).2,
        mem_demanded.2 ⟨(hfinal_eq hm).1 hfinal, .inl ⟨fun h => h.2 hself, rfl⟩⟩⟩
    · -- Another module under its own name, which it keeps or is the only one to have.
      refine ⟨_, hseen, (ho.isRenamed_iff.1 hrenamed).2,
        mem_demanded.2 ⟨(hfinal_eq (hreached hseen)).1 hfinal, .inl ⟨?_, rfl⟩⟩⟩
      rintro ⟨⟨s, hs, hother, hshared⟩, hown⟩
      exact hname.elim (fun hfree => hfree s hs hother hshared) hown
    · -- Another module whose name is taken, under the least of the others.
      have hseen := hleast.1
      refine ⟨_, ⟨_, hseen⟩, (ho.isRenamed_iff.1 hrenamed).2,
        mem_demanded.2 ⟨(hfinal_eq (hreached ⟨_, hseen⟩)).1 hfinal, .inr ⟨?_, ?_, hne⟩⟩⟩
      · exact ⟨⟨_, hs, hother, hshared⟩, hown⟩
      · exact hleast.unique (isLeast_chosenName hseen hown)
  · obtain ⟨k, v⟩ := e
    rintro ⟨d, hseen, hrenamed, he⟩
    have hrenamed := ho.isRenamed_iff.2 ⟨hreached hseen, hrenamed⟩
    obtain ⟨hv, hkey⟩ := mem_demanded.1 he
    have hfinal := (hfinal_eq (hreached hseen)).2 hv
    obtain ⟨hstays, rfl⟩ | ⟨hgives, rfl, hne⟩ := hkey
    · by_cases hd : d = m
      · subst hd
        exact .own hrenamed hfinal
      · refine .other hd hseen hrenamed hfinal ?_
        by_cases hown : (⟨d, (g.moduleAt d).name⟩ : Sighting) ∈ visible g m
        · exact .inr hown
        · exact .inl fun s hs hother hshared => hstays ⟨⟨s, hs, hother, hshared⟩, hown⟩
    · -- `m` sees itself under its own name, so that it never needs a substitute for it.
      have hd : d ≠ m := by
        rintro rfl
        exact hgives.2 hself
      obtain ⟨⟨s, hs, hother, hshared⟩, hown⟩ := hgives
      obtain ⟨name, hname⟩ := hseen
      exact .standIn hd hrenamed hfinal hs hother hshared hown (isLeast_chosenName hname hown) hne

/-! ### Reports -/

lemma filter_log (hg : g.IsClosed) (hac : ¬ g.IsCyclic) (h : resolve g = .ok o) :
    o.log.filter (·.code = .moduleAliasMapConflict) =
      (g.moduleIds.filter o.resolution.isReachable).flatMap fun m => (mapOf g m).log := by
  have hdecides := decides_of_resolve hg hac h
  obtain ⟨conflicts, hreports⟩ := resolve_reports hg hac h
  have hparts := hreports.parts hg hac
  have hreached : reachedList g = g.moduleIds.filter o.resolution.isReachable := by
    refine List.filter_congr fun m hm => ?_
    have hmem := mem_reached hg hac (m := m)
    rw [View.modules, List.mem_filter, and_iff_right hm] at hmem
    rw [Bool.eq_iff_iff, hdecides.isReachable_iff, hmem]
  rw [hreports.log, List.filter_append, List.filter_append, List.filter_append,
    List.filter_append, hparts.screened.filter_eq_nil (by decide),
    hparts.noticed.filter_eq_nil (by decide), hparts.conflicting.filter_eq_nil (by decide),
    hparts.mapped.filter_eq_self, hparts.duplicates.filter_eq_nil (by decide), hreached]
  simp

/-- **Alias maps are exact, and every clash is reported.** Where no cycle is reached, an engine
that reported nothing fatal before records the reports on the alias maps of the reached modules, in
order and as errors. Each of them is about two demanded entries that clash, and a module has
reports exactly if there are such entries. A map without a report holds exactly the demanded
entries, with different values for different keys. In every case its values are final names of
modules that its module sees, itself included. -/
theorem aliases_demanded (hg : g.IsClosed) (hac : ¬ g.IsCyclic) :
    ∃ o, ∃ reports : ModuleId → List Diagnostic, resolve g = .ok o ∧
      (∀ engine : Engine, engine.hadFatal = false →
        ∃ new, (engine.diagnoseAll o.log).emitted = engine.emitted ++ new ∧
          new.filter (·.diagnostic.code = .moduleAliasMapConflict) =
            ((g.moduleIds.filter o.resolution.isReachable).flatMap reports).map
              (⟨·, .error, false⟩)) ∧
      ∀ m, o.resolution.isReachable m = true →
        (∀ d ∈ reports m, ∃ e f, Demands g o.resolution m e ∧ Demands g o.resolution m f ∧
          Clash e f ∧ d = mapConflict (g.moduleAt m).name e f) ∧
        (reports m ≠ [] ↔ ∃ e f, Demands g o.resolution m e ∧ Demands g o.resolution m f ∧
          Clash e f) ∧
        (reports m = [] →
          (∀ k v, (o.resolution.aliases m).get? k = some v ↔ Demands g o.resolution m (k, v)) ∧
          ∀ k k' v, (o.resolution.aliases m).get? k = some v →
            (o.resolution.aliases m).get? k' = some v → k = k') ∧
        ∀ k v, (o.resolution.aliases m).get? k = some v →
          ∃ d name, (⟨d, name⟩ : Sighting) ∈ visible g m ∧ o.resolution.finalName d = .ok v := by
  obtain ⟨o, ho, hdecides⟩ := resolve_of_not_isCyclic hg hac
  refine ⟨o, fun m => (mapOf g m).log, ho, fun engine he => ?_, fun m hreachable => ?_⟩
  · refine ⟨_, (Engine.diagnoseAll_spec he hdecides.calm).1, ?_⟩
    rw [Engine.filter_verdict he rfl, filter_log hg hac ho]
    rfl
  · have hm : g.IsReached m := hdecides.isReachable_iff.1 hreachable
    have hdemands {e : String × String} := demands_iff hg hac hdecides hm (e := e)
    have hdraws : (mapOf g m).DrawsOn (g.moduleAt m).name
        (demandedBy g (visibleFromRoots g) (visible g m) m) := AliasMap.drawsOn_foldl_add
    rw [hdecides.aliases_eq hm]
    refine ⟨fun d hd => ?_, ?_, fun hnone => ?_, fun k v hk => ?_⟩
    · obtain ⟨e, he, f, hf, hclash, hd⟩ := hdraws.report d hd
      exact ⟨e, f, hdemands.2 he, hdemands.2 hf, hclash, hd⟩
    · have hclash : (mapOf g m).log ≠ [] ↔
          ∃ e ∈ demandedBy g (visibleFromRoots g) (visible g m) m,
            ∃ f ∈ demandedBy g (visibleFromRoots g) (visible g m) m, Clash e f :=
        (not_congr AliasMap.log_foldl_add).trans AliasMap.not_consistent_iff
      rw [hclash]
      refine exists_congr fun e => ?_
      rw [hdemands, ← exists_and_left]
      refine exists_congr fun f => ?_
      rw [hdemands]
    · have hget {k v : String} : (mapOf g m).aliases.get? k = some v ↔
          Demands g o.resolution m (k, v) := by
        rw [mapOf, AliasMap.get?_foldl_add hnone, hdemands]
      refine ⟨fun k v => hget, fun k k' v hk hk' => ?_⟩
      have hconsistent := AliasMap.log_foldl_add.1 hnone
      exact (hconsistent (k, v) (hdemands.1 (hget.1 hk)) (k', v)
        (hdemands.1 (hget.1 hk'))).2 rfl
    · exact (hdemands.2 (hdraws.entry k v hk)).exists_finalName
        ((mem_visible_iff hg hac hm).2 (.inl rfl))

/-- An application that asks for the modules of two libraries under one name. -/
def merged : Graph where
  packages := [
    { identity := "app", display := "app", isRoot := true, modules := [0] },
    { identity := "logs", display := "logs", modules := [1], products := [0] },
    { identity := "traces", display := "traces", modules := [2], products := [1] }]
  modules := [
    { name := "App", dependencies := [
      .product 0 [⟨"Logging", "Shared"⟩], .product 1 [⟨"Tracing", "Shared"⟩]] },
    { name := "Logging", owner := 1 },
    { name := "Tracing", owner := 2 }]
  products := [
    { name := "Logging", owner := 1, modules := [1] },
    { name := "Tracing", owner := 2, modules := [2] }]

/-- The application needs one value for two keys, which is reported. -/
theorem aliases_demanded_merged : merged.IsClosed ∧ ¬ merged.IsCyclic ∧
    ∃ o d, resolve merged = .ok o ∧ d.code = .moduleAliasMapConflict ∧
      (⟨d, .error, false⟩ : Diagnostic.Record) ∈ (({} : Engine).diagnoseAll o.log).emitted := by
  have hg : merged.IsClosed := by decide
  have hac : ¬ merged.IsCyclic := Walk.not_isCyclic hg (by decide)
  obtain ⟨o, reports, ho, hengine, hmaps⟩ := aliases_demanded hg hac
  have hnames : (resolve merged).toOption.any (fun o => o.resolution.isReachable 0 &&
      ([1, 2] : List ModuleId).all fun d => o.resolution.isRenamed merged d &&
        (o.resolution.finalName d).toOption = some "Shared") = true := by
    decide +kernel
  obtain ⟨o', ho', hnamed⟩ := resolve_of_any hnames
  obtain rfl := Except.ok.inj (ho.symm.trans ho')
  simp only [Bool.and_eq_true, List.all_cons, List.all_nil, and_true, decide_eq_true_eq,
    Fault.toOption_eq_some] at hnamed
  obtain ⟨hreachable, ⟨hlogging, hlogs⟩, htracing, htraces⟩ := hnamed
  have hfirst : Demands merged o.resolution 0 ("Logging", "Shared") :=
    .other (d := 1) (by decide) ⟨"Shared", by decide +kernel⟩ hlogging hlogs
      (.inl (by decide +kernel))
  have hsecond : Demands merged o.resolution 0 ("Tracing", "Shared") :=
    .other (d := 2) (by decide) ⟨"Shared", by decide +kernel⟩ htracing htraces
      (.inl (by decide +kernel))
  obtain ⟨-, hclash, -⟩ := hmaps 0 hreachable
  obtain ⟨d, hd⟩ := List.exists_mem_of_ne_nil _
    (hclash.2 ⟨_, _, hfirst, hsecond, .inr ⟨rfl, by decide⟩⟩)
  obtain ⟨new, hnew, hfilter⟩ := hengine {} rfl
  have hrecord : (⟨d, .error, false⟩ : Diagnostic.Record) ∈
      new.filter (·.diagnostic.code = .moduleAliasMapConflict) := by
    rw [hfilter]
    exact List.mem_map_of_mem (List.mem_flatMap.2
      ⟨0, List.mem_filter.2 ⟨by decide, hreachable⟩, hd⟩)
  obtain ⟨hemitted, hcode⟩ := List.mem_filter.1 hrecord
  refine ⟨hg, hac, o, d, ho, of_decide_eq_true hcode, ?_⟩
  rw [hnew]
  exact List.mem_append_right _ hemitted

end BuildPlanner.Alias
