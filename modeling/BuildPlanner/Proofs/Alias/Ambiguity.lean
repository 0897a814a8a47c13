import BuildPlanner.Proofs.Alias.Errors
import BuildPlanner.Proofs.Diagnostic.Engine

/-!
When the dependencies of a module disagree on a name, and what survives in every case.

What is reported on a dependency only compares it with the first one that asks for the same name.
So of two dependencies that disagree, the later one disagrees with the first, or the earlier one
does.
-/

namespace BuildPlanner.Alias

open Diagnostic (Engine)

variable {g : Graph}

/-- Two dependencies on products of a package ask for different names for modules of one name. -/
def Disagree (g : Graph) (d d' : Dependency) : Prop :=
  ∃ k name v v', asked? g k name d = some v ∧ asked? g k name d' = some v' ∧ v ≠ v'

namespace Screening

variable {requester : String} {ds : List Dependency} {d : Dependency}

/-! ### Ambiguities -/

/-- An ambiguity is reported on a dependency exactly if the first dependency that asks for one of
its names asks for another replacement. -/
lemma exists_ambiguous_reported :
    (∃ x ∈ reported g requester ds d, x.code = .moduleAliasAmbiguous) ↔
      ∃ k name v w, ds.findSome? (asked? g k name) = some v ∧ asked? g k name d = some w ∧
        v ≠ w := by
  cases d with
  | module m => simp [reported, asked?]
  | product p rs =>
    by_cases hall : ∀ r ∈ rs, Name.isValid r.replacement = true
    · simp only [mem_reported_of_valid hall]
      refine ⟨?_, ?_⟩
      · rintro ⟨x, ⟨name, w, hw, v, hv, hne, rfl⟩, -⟩
        exact ⟨_, name, v, w, hv, hw, hne⟩
      · rintro ⟨k, name, v, w, hv, hw, hne⟩
        obtain ⟨rfl, -⟩ := asked?_product_eq_some.1 hw
        exact ⟨_, ⟨name, w, hw, v, hv, hne, rfl⟩, rfl⟩
    · -- An invalid request is reported as such, and nothing else on that dependency.
      rw [reported_of_not_valid hall]
      refine iff_of_false ?_ ?_
      · rintro ⟨x, hx, hcode⟩
        obtain ⟨r, -, rfl⟩ := List.mem_map.1 hx
        cases hcode
      · rintro ⟨k, name, v, w, -, hw, -⟩
        exact hall (asked?_product_eq_some.1 hw).2.1

/-- **An ambiguity is reported exactly if two dependencies disagree.** -/
theorem exists_ambiguous_log :
    (∃ x ∈ (ofList g requester ds).log, x.code = .moduleAliasAmbiguous) ↔
      ∃ d ∈ ds, ∃ d' ∈ ds, Disagree g d d' := by
  induction ds using List.reverseRecOn with
  | nil => simp [ofList]
  | append_singleton ds d ih =>
    have hlog : (∃ x ∈ (ofList g requester (ds ++ [d])).log, x.code = .moduleAliasAmbiguous) ↔
        (∃ x ∈ (ofList g requester ds).log, x.code = .moduleAliasAmbiguous) ∨
          ∃ x ∈ reported g requester ds d, x.code = .moduleAliasAmbiguous := by
      rw [log_append_singleton]
      simp only [List.mem_append, or_and_right, exists_or]
    rw [hlog, ih, exists_ambiguous_reported]
    refine ⟨?_, ?_⟩
    · -- Two that disagreed before, or `d` and the first that asks for the name.
      rintro (⟨a, ha, b, hb, h⟩ | ⟨k, name, v, w, hv, hw, hne⟩)
      · exact ⟨a, by simp [ha], b, by simp [hb], h⟩
      · obtain ⟨a, ha, hv⟩ := List.exists_of_findSome?_eq_some hv
        exact ⟨a, by simp [ha], d, by simp, k, name, v, w, hv, hw, hne⟩
    · -- The later of the two disagrees with the first that asks for the name, or the earlier does.
      have hlast : ∀ a ∈ ds, ∀ k name v w, asked? g k name a = some v →
          asked? g k name d = some w → v ≠ w → (∃ a ∈ ds, ∃ b ∈ ds, Disagree g a b) ∨
            ∃ k name v w, ds.findSome? (asked? g k name) = some v ∧
              asked? g k name d = some w ∧ v ≠ w := by
        intro a ha k name v w hv hw hne
        obtain ⟨u, hu⟩ := exists_findSome?_asked? ha hv
        by_cases huw : u = w
        · obtain ⟨b, hb, hub⟩ := List.exists_of_findSome?_eq_some hu
          exact .inl ⟨b, hb, a, ha, k, name, u, v, hub, hv, huw ▸ hne.symm⟩
        · exact .inr ⟨k, name, u, w, hu, hw, huw⟩
      rintro ⟨a, ha, b, hb, k, name, v, w, hv, hw, hne⟩
      rcases List.mem_append.1 ha with ha' | ha' <;> rcases List.mem_append.1 hb with hb' | hb'
      · exact .inl ⟨a, ha', b, hb', k, name, v, w, hv, hw, hne⟩
      · rw [List.mem_singleton.1 hb'] at hw
        exact hlast a ha' k name v w hv hw hne
      · rw [List.mem_singleton.1 ha'] at hv
        exact hlast b hb' k name w v hw hv hne.symm
      · rw [List.mem_singleton.1 ha'] at hv
        rw [List.mem_singleton.1 hb'] at hw
        exact absurd (Option.some.inj (hv.symm.trans hw)) hne

/-! ### Dependencies of which requests survive -/

lemma findSome?_take_of_reported_eq_nil {i j : Nat} (hij : i < j) {k : PackageId}
    {name v : String} (hd : ds[i]? = some d) (hnone : reported g requester (ds.take i) d = [])
    (hv : asked? g k name d = some v) : (ds.take j).findSome? (asked? g k name) = some v := by
  have hearlier : ds.take (i + 1) <+: ds.take j := List.take_prefix_take_left hij
  refine hearlier.findSome?_eq_some ?_
  rw [List.take_add_one, hd, Option.toList_some, List.findSome?_append, List.findSome?_singleton,
    hv]
  cases hfirst : (ds.take i).findSome? (asked? g k name) with
  | none => rfl
  | some u => rw [Option.some_or, (reported_eq_nil.1 hnone).2 k name u v hfirst hv]

lemma surviving_agree {i j : Nat} {d d' : Dependency} (hd : ds[i]? = some d)
    (hd' : ds[j]? = some d') (hnone : reported g requester (ds.take i) d = [])
    (hnone' : reported g requester (ds.take j) d' = []) {k : PackageId} {name v w : String}
    (hv : asked? g k name d = some v) (hw : asked? g k name d' = some w) : v = w := by
  rcases Nat.lt_trichotomy i j with hij | rfl | hij
  · -- The earlier of the two is what the later is compared with.
    have hfirst := findSome?_take_of_reported_eq_nil hij hd hnone hv
    exact (reported_eq_nil.1 hnone').2 k name v w hfirst hw
  · rw [Option.some.inj (hd.symm.trans hd'), hw] at hv
    exact (Option.some.inj hv).symm
  · have hfirst := findSome?_take_of_reported_eq_nil hij hd' hnone' hw
    exact ((reported_eq_nil.1 hnone).2 k name w v hfirst hv).symm

end Screening

/-! ### Reports of a resolution -/

lemma exists_log (hg : g.IsClosed) : ∃ o rest, resolve g = .ok o ∧
    o.log = (g.modules.map (Screening.ofModule g)).flatMap (·.log) ++ rest ∧
      ∀ d ∈ rest, d.code ∉ [.moduleAliasInvalid, .moduleAliasAmbiguous] := by
  have hnotices : Only surveyCodes (Survey.ofGraph g).notices.log := Survey.only_ofWalk g _ _
  have hother {codes : List Diagnostic.Code} {ds : List Diagnostic} (h : Only codes ds)
      (hcodes : ∀ c ∈ codes, c ∉ [Diagnostic.Code.moduleAliasInvalid, .moduleAliasAmbiguous]) :
      ∀ d ∈ ds, d.code ∉ [.moduleAliasInvalid, .moduleAliasAmbiguous] :=
    fun d hd => hcodes _ (h d hd)
  by_cases hc : g.IsCyclic
  · -- At a cycle the rest is the notices and the cycle.
    obtain ⟨c, -, ho⟩ := resolve_eq_cyclic hg hc
    refine ⟨_, _, ho, List.append_assoc .., fun d hd => ?_⟩
    rcases List.mem_append.1 hd with hd | hd
    · exact hother hnotices (by decide) d hd
    · rw [List.mem_singleton.1 hd]
      simp [Diagnostic.code]
  · -- Without one it is what a complete resolution adds.
    obtain ⟨o, ho, -⟩ := resolve_of_not_isCyclic hg hc
    obtain ⟨conflicts, hreports⟩ := resolve_reports hg hc ho
    have hparts := hreports.parts hg hc
    have hlog : o.log = (g.modules.map (Screening.ofModule g)).flatMap (·.log) ++
        ((Survey.ofGraph g).notices.log ++ (conflicts.flatten ++
          ((reachedList g).flatMap (fun m => (mapOf g m).log) ++
            duplicateProducts g (reachedList g) (Survey.ofGraph g).renamingEdges))) := by
      simp only [hreports.log, List.append_assoc]
    refine ⟨o, _, ho, hlog, fun d hd => ?_⟩
    simp only [List.mem_append] at hd
    rcases hd with hd | hd | hd | hd
    · exact hother hparts.noticed (by decide) d hd
    · exact hother hparts.conflicting (by decide) d hd
    · exact hother hparts.mapped (by decide) d hd
    · exact hother hparts.duplicates (by decide) d hd

/-- **An ambiguity is reported exactly where two dependencies disagree, and what survives never
does.** An engine that reported nothing fatal before records the ambiguities that screening finds in
each module, as errors, and no others. They are found in a module exactly if two of its
dependencies disagree. In every case the requests that survive are valid, replace different names by
others, and agree with all that survives of dependencies on products of the same package. -/
theorem ambiguity_reported (hg : g.IsClosed) :
    ∃ o, resolve g = .ok o ∧
      (∀ engine : Engine, engine.hadFatal = false →
        ∃ new, (engine.diagnoseAll o.log).emitted = engine.emitted ++ new ∧
          new.filter (·.diagnostic.code = .moduleAliasAmbiguous) =
            ((g.modules.flatMap fun c => (Screening.ofModule g c).log).filter
              (·.code = .moduleAliasAmbiguous)).map (⟨·, .error, false⟩)) ∧
      ∀ c ∈ g.modules,
        ((∃ x ∈ (Screening.ofModule g c).log, x.code = .moduleAliasAmbiguous) ↔
          ∃ d ∈ c.dependencies, ∃ d' ∈ c.dependencies, Disagree g d d') ∧
        (∀ x ∈ (Screening.ofModule g c).surviving, ∀ y ∈ (Screening.ofModule g c).surviving,
          ∀ p q rs ss, c.dependencies[x.1]? = some (.product p rs) →
            c.dependencies[y.1]? = some (.product q ss) →
              (g.productAt p).owner = (g.productAt q).owner →
                ∀ r ∈ x.2, ∀ s ∈ y.2, r.name = s.name → r.replacement = s.replacement) ∧
        ∀ x ∈ (Screening.ofModule g c).surviving,
          x.2 ≠ [] ∧ (x.2.Pairwise fun r s => r.name ≠ s.name) ∧
            ∀ r ∈ x.2, Name.isValid r.replacement = true ∧ r.replacement ≠ r.name := by
  obtain ⟨o, rest, ho, hlog, hrest⟩ := exists_log hg
  refine ⟨o, ho, fun engine he => ?_, fun c _ => ⟨Screening.exists_ambiguous_log, ?_, ?_⟩⟩
  · have hscreened := Screening.only_ofModules g
    rw [hlog, List.flatMap_map]
    refine Engine.exists_emitted_filter he rfl (fun d hd => ?_) fun d hd hcode => ?_
    · rw [← List.flatMap_map] at hd
      exact hscreened.isFatal (by decide) d hd
    · exact hrest d hd (by rw [hcode]; decide)
  · rintro ⟨i, kept⟩ hx ⟨j, kept'⟩ hy p q rs ss hp hq howner r hr s hs hname
    obtain ⟨d, hd, hnone, rfl, -⟩ := Screening.mem_surviving.1 hx
    obtain ⟨d', hd', hnone', rfl, -⟩ := Screening.mem_surviving.1 hy
    obtain rfl := Option.some.inj (hd.symm.trans hp)
    obtain rfl := Option.some.inj (hd'.symm.trans hq)
    have hasked : asked? g (g.productAt p).owner r.name (.product p rs) = some r.replacement :=
      asked?_product_eq_some.2 ⟨rfl, (Screening.reported_eq_nil.1 hnone).1, hr⟩
    have hasked' : asked? g (g.productAt p).owner r.name (.product q ss) = some s.replacement := by
      rw [hname]
      exact asked?_product_eq_some.2 ⟨howner.symm, (Screening.reported_eq_nil.1 hnone').1, hs⟩
    exact Screening.surviving_agree hp hq hnone hnone' hasked hasked'
  · rintro ⟨i, kept⟩ hx
    obtain ⟨d, -, hnone, rfl, hkept⟩ := Screening.mem_surviving.1 hx
    refine ⟨hkept, pairwise_effective _, fun r hr => ⟨?_, (mem_and_ne_of_mem_effective hr).2⟩⟩
    exact (Screening.reported_eq_nil.1 hnone).1 r (mem_and_ne_of_mem_effective hr).1

/-- An application with three dependencies on a library. The second asks for another name than the
first, and the third for another than the second. -/
def contested : Graph where
  packages := [
    { identity := "app", display := "app", isRoot := true, modules := [0] },
    { identity := "lib", display := "lib", modules := [1, 2], products := [0, 1, 2] }]
  modules := [
    { name := "App", dependencies := [
      .product 0 [⟨"Core", "LibCore"⟩],
      .product 1 [⟨"Core", "OtherCore"⟩, ⟨"Utils", "LibUtils"⟩],
      .product 2 [⟨"Utils", "OtherUtils"⟩]] },
    { name := "Core", owner := 1 },
    { name := "Utils", owner := 1 }]
  products := [
    { name := "Core", owner := 1, modules := [1] },
    { name := "Lib", owner := 1, modules := [1, 2] },
    { name := "Utils", owner := 1, modules := [2] }]

/-- The third dependency is found to disagree although nothing survives of the second. -/
theorem ambiguity_reported_contested : contested.IsClosed ∧ ∃ o d, resolve contested = .ok o ∧
    d.code = .moduleAliasAmbiguous ∧
      (⟨d, .error, false⟩ : Diagnostic.Record) ∈ (({} : Engine).diagnoseAll o.log).emitted ∧
      (Screening.ofModule contested (contested.moduleAt 0)).surviving =
        [(0, [⟨"Core", "LibCore"⟩])] := by
  have hg : contested.IsClosed := by decide
  obtain ⟨o, ho, hengine, hmodules⟩ := ambiguity_reported hg
  have hmem : contested.moduleAt 0 ∈ contested.modules := by decide
  obtain ⟨hiff, -, -⟩ := hmodules _ hmem
  have hdisagree : Disagree contested
      (.product 1 [⟨"Core", "OtherCore"⟩, ⟨"Utils", "LibUtils"⟩])
      (.product 2 [⟨"Utils", "OtherUtils"⟩]) :=
    ⟨1, "Utils", "LibUtils", "OtherUtils", by decide +kernel, by decide +kernel, by decide⟩
  obtain ⟨d, hd, hcode⟩ := hiff.2 ⟨_, by decide, _, by decide, hdisagree⟩
  obtain ⟨new, hnew, hfilter⟩ := hengine {} rfl
  have hrecord : (⟨d, .error, false⟩ : Diagnostic.Record) ∈
      new.filter (·.diagnostic.code = .moduleAliasAmbiguous) := by
    rw [hfilter]
    exact List.mem_map_of_mem (List.mem_filter.2
      ⟨List.mem_flatMap.2 ⟨_, hmem, hd⟩, by simpa using hcode⟩)
  refine ⟨hg, o, d, ho, hcode, ?_, by decide +kernel⟩
  rw [hnew]
  exact List.mem_append_right _ (List.mem_filter.1 hrecord).1

end BuildPlanner.Alias
