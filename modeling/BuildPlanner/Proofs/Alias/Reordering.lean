import BuildPlanner.Proofs.Alias.Coherence
import BuildPlanner.Proofs.Graph.Reordering

/-!
What a reordering leaves of a resolution.

What a module sees, the names it is given and the alias map it needs follow from the graph without
regard to order, so they are the same for the module at its new position. So are the conditions
under which there is an error or a warning.
-/

namespace BuildPlanner.Reordering

open Alias

variable {g g' : Graph} (σ : Reordering g g')

/-! ### Requests -/

lemma agree (hg : g.IsClosed) {m : ModuleId} {d e : Dependency}
    (hd : d ∈ (g.moduleAt m).dependencies) (he : e ∈ (g.moduleAt m).dependencies) :
    Agree g' (σ.dependency d) (σ.dependency e) ↔ Agree g d e := by
  cases d with
  | module n => exact Iff.rfl
  | product p rs =>
    cases e with
    | module n => exact Iff.rfl
    | product q ss =>
      have howner : (g'.productAt (σ.product p)).owner = (g'.productAt (σ.product q)).owner ↔
          (g.productAt p).owner = (g.productAt q).owner := by
        rw [(σ.productAt (hg.product_lt hd)).owner, (σ.productAt (hg.product_lt he)).owner,
          σ.package.injective.eq_iff]
      simp only [dependency_product, Agree, howner]

lemma clear (hg : g.IsClosed) (m : ModuleId) :
    Clear g' (g'.moduleAt (σ.module m)).dependencies ↔ Clear g (g.moduleAt m).dependencies := by
  refine ⟨fun ⟨hvalid, hagree⟩ => ⟨?_, fun d hd e he => ?_⟩,
    fun ⟨hvalid, hagree⟩ => ⟨?_, ?_⟩⟩
  · simpa [σ.forall_dependencies] using hvalid
  · simp only [σ.forall_dependencies] at hagree
    exact (σ.agree hg hd he).1 (hagree d hd e he)
  · simpa [σ.forall_dependencies] using hvalid
  · simp only [σ.forall_dependencies]
    exact fun d hd e he => (σ.agree hg hd he).2 (hagree d hd e he)

lemma clear_all (σ : Reordering g g') (hg : g.IsClosed) :
    (∀ x ∈ g'.modules, Clear g' x.dependencies) ↔ ∀ x ∈ g.modules, Clear g x.dependencies := by
  simp only [Graph.mem_modules_iff, forall_exists_index, and_imp, forall_apply_eq_imp_iff₂]
  rw [σ.module.surjective.forall]
  simp only [σ.module_lt, σ.clear hg]

/-! ### Sightings -/

/-- The same modules are seen under the same names, before and after. -/
def Matches (seen seen' : Finset Sighting) : Prop :=
  ∀ d name, (⟨σ.module d, name⟩ : Sighting) ∈ seen' ↔ (⟨d, name⟩ : Sighting) ∈ seen

variable {σ}

namespace Matches

variable {seen seen' : Finset Sighting}

lemma exists_mem (h : σ.Matches seen seen') {P : Sighting → Prop} :
    (∃ s ∈ seen', P s) ↔ ∃ s ∈ seen, P ⟨σ.module s.module, s.name⟩ := by
  refine ⟨?_, ?_⟩
  · rintro ⟨⟨d', name⟩, hs, hP⟩
    obtain ⟨d, rfl⟩ := σ.module.surjective d'
    exact ⟨⟨d, name⟩, (h d name).1 hs, hP⟩
  · rintro ⟨⟨d, name⟩, hs, hP⟩
    exact ⟨_, (h d name).2 hs, hP⟩

lemma forall_mem (h : σ.Matches seen seen') {P : Sighting → Prop} :
    (∀ s ∈ seen', P s) ↔ ∀ s ∈ seen, P ⟨σ.module s.module, s.name⟩ := by
  refine ⟨fun hall s hs => hall _ ((h s.module s.name).2 hs), fun hall => ?_⟩
  rintro ⟨d', name⟩ hs
  obtain ⟨d, rfl⟩ := σ.module.surjective d'
  exact hall ⟨d, name⟩ ((h d name).1 hs)

lemma otherNames_eq (h : σ.Matches seen seen') (m : ModuleId) :
    otherNames g' seen' (σ.module m) = otherNames g seen m := by
  ext name
  rw [mem_otherNames, mem_otherNames, h, σ.name_module]

lemma chosenName_eq (h : σ.Matches seen seen') (m : ModuleId) :
    chosenName g' seen' (σ.module m) = chosenName g seen m := by
  rw [chosenName, chosenName, h.otherNames_eq, σ.name_module]

lemma applying?_eq (h : σ.Matches seen seen') (rs : List AliasRequest) (d : ModuleId)
    (name : String) :
    applying? g' rs seen' ⟨σ.module d, name⟩ = applying? g rs seen ⟨d, name⟩ := by
  simp only [applying?, σ.name_module, h.forall_mem]

lemma changes (h : σ.Matches seen seen') {rs : List AliasRequest} {d : ModuleId} {name : String} :
    Changes g' rs seen' ⟨σ.module d, name⟩ ↔ Changes g rs seen ⟨d, name⟩ := by
  simp only [Changes, h.applying?_eq]

lemma relabelledName_eq (h : σ.Matches seen seen') (hg : g.IsClosed) {d : ModuleId}
    (hd : d < g.modules.length) (rs : List AliasRequest) (name : String) :
    relabelledName g' rs seen' ⟨σ.module d, name⟩ = relabelledName g rs seen ⟨d, name⟩ := by
  simp only [relabelledName, σ.name_module, h.forall_mem, (σ.ownerOf hg hd).tools]

end Matches

lemma matches_seenIn {p : ProductId}
    (h : ∀ n ∈ (g.productAt p).modules, σ.Matches (visible g n) (visible g' (σ.module n))) :
    σ.Matches (seenIn g p) (seenIn g' (σ.product p)) := by
  intro d name
  rw [mem_seenIn, mem_seenIn, σ.exists_members]
  exact exists_congr fun n => and_congr_right fun hn => h n hn d name

lemma matches_visible (hg : g.IsClosed) (hg' : g'.IsClosed) (hac : ¬ g.IsCyclic)
    (hclear : ∀ m ∈ g.modules, Clear g m.dependencies) {m : ModuleId} (hm : g.IsReached m) :
    σ.Matches (visible g m) (visible g' (σ.module m)) := by
  have hac' : ¬ g'.IsCyclic := σ.isCyclic.not.2 hac
  have hclear' := (σ.clear_all hg).2 hclear
  induction acc_of_isReached hg hac hm with
  | intro m _ ih =>
    have hsee : ∀ n, g.Leads m n → σ.Matches (visible g n) (visible g' (σ.module n)) :=
      fun n hn => ih n hn (hm.step hn)
    intro d name
    rw [mem_visible_iff_shown hg' hac' hclear' (σ.isReached.2 hm),
      mem_visible_iff_shown hg hac hclear hm, σ.exists_dependencies]
    refine or_congr (by simp) (exists_congr fun x => and_congr_right fun hx => ?_)
    cases x with
    | module n => exact hsee n (.module hx) d name
    | product p rs =>
      have hbase : σ.Matches (seenIn g p) (seenIn g' (σ.product p)) :=
        matches_seenIn fun n hn => hsee n (.product hx hn)
      simp only [dependency_product, shown, mem_relabelled, hbase d]
      refine exists_congr fun old => and_congr_right fun hold => ?_
      have hd := hg.reached_lt (isReached_of_mem_seenIn hg hac hm hx hold)
      rw [hbase.relabelledName_eq hg hd]

/-! ### Names -/

namespace Matches

variable {seen seen' view view' : Finset Sighting}

lemma givesWay (h : σ.Matches view view') {d : ModuleId} :
    GivesWay g' view' (σ.module d) ↔ GivesWay g view d := by
  simp only [GivesWay, h.exists_mem, σ.name_module, h d, ne_eq, σ.module.injective.eq_iff]

lemma demanded_eq (hseen : σ.Matches seen seen') (hview : σ.Matches view view') (d : ModuleId) :
    demanded g' seen' view' (σ.module d) = demanded g seen view d := by
  simp only [demanded, hview.givesWay, hview.chosenName_eq, hseen.chosenName_eq, σ.name_module]

end Matches

section Resolved

variable (hg : g.IsClosed) (hg' : g'.IsClosed) (hac : ¬ g.IsCyclic)
  (hclear : ∀ m ∈ g.modules, Clear g m.dependencies) {m : ModuleId} (hm : g.IsReached m)

include hg hg' hac hclear

lemma matches_roots : σ.Matches (visibleFromRoots g) (visibleFromRoots g') := by
  intro d name
  simp only [visibleFromRoots, Finset.mem_biUnion, List.mem_toFinset]
  rw [σ.module.surjective.exists]
  refine exists_congr fun r => ?_
  rw [σ.mem_rootModules]
  exact and_congr_right fun hr =>
    matches_visible hg hg' hac hclear (Graph.isReached_root hr) d name

include hm

lemma mem_demandedBy {e : String × String} :
    e ∈ demandedBy g' (visibleFromRoots g') (visible g' (σ.module m)) (σ.module m) ↔
      e ∈ demandedBy g (visibleFromRoots g) (visible g m) m := by
  have hview := matches_visible (σ := σ) hg hg' hac hclear hm
  have hseen := matches_roots (σ := σ) hg hg' hac hclear
  rw [mem_demandedBy_visible hg' (σ.isCyclic.not.2 hac) (σ.isReached.2 hm),
    mem_demandedBy_visible hg hac hm, σ.module.surjective.exists]
  simp only [hview _, hseen.otherNames_eq, hseen.demanded_eq hview]

lemma consistent :
    AliasMap.Consistent
        (demandedBy g' (visibleFromRoots g') (visible g' (σ.module m)) (σ.module m)) ↔
      AliasMap.Consistent (demandedBy g (visibleFromRoots g) (visible g m) m) := by
  simp only [AliasMap.Consistent, mem_demandedBy hg hg' hac hclear hm]

lemma renames {d : Dependency} (hd : d ∈ (g.moduleAt m).dependencies) :
    Renames g' (σ.dependency d) ↔ Renames g d := by
  cases d with
  | module n => exact Iff.rfl
  | product p rs =>
    have hbase : σ.Matches (seenIn g p) (seenIn g' (σ.product p)) := matches_seenIn fun n hn =>
      matches_visible hg hg' hac hclear (hm.step (.product hd hn))
    simp only [dependency_product, Renames, hbase.exists_mem, hbase.changes]
    refine exists_congr fun s => and_congr_right fun hs => ?_
    rw [(σ.ownerOf hg (hg.reached_lt (isReached_of_mem_seenIn hg hac hm hd hs))).tools]

lemma quiet {d : Dependency} (hd : d ∈ (g.moduleAt m).dependencies) :
    Quiet g' (σ.dependency d) ↔ Quiet g d := by
  cases d with
  | module n => exact Iff.rfl
  | product p rs =>
    have hbase : σ.Matches (seenIn g p) (seenIn g' (σ.product p)) := matches_seenIn fun n hn =>
      matches_visible hg hg' hac hclear (hm.step (.product hd hn))
    simp only [dependency_product, Quiet, hbase.exists_mem, hbase.forall_mem, hbase.changes,
      hbase.applying?_eq, σ.sources_module]
    refine and_congr_left' (forall₂_congr fun s hs => ?_)
    rw [(σ.ownerOf hg (hg.reached_lt (isReached_of_mem_seenIn hg hac hm hd hs))).tools]

end Resolved

/-! ### Products of equal name -/

lemma isConsumed {p : ProductId} : IsConsumed g' (σ.product p) ↔ IsConsumed g p := by
  have hmem : ∀ m rs, Dependency.product (σ.product p) rs ∈
      (g'.moduleAt (σ.module m)).dependencies ↔ .product p rs ∈ (g.moduleAt m).dependencies :=
    fun m rs => σ.mem_dependencies (d := .product p rs)
  rw [IsConsumed, σ.module.surjective.exists]
  simp only [σ.isReached, hmem]
  rfl

lemma vendorOf_consumed (hg : g.IsClosed) {p : ProductId} (hp : IsConsumed g p) :
    Package.Renumbered σ.module σ.product (g.vendorOf p) (g'.vendorOf (σ.product p)) := by
  obtain ⟨m, -, rs, hd⟩ := hp
  exact σ.vendorOf hg (hg.product_lt hd)

section Resolved

variable (hg : g.IsClosed) (hg' : g'.IsClosed) (hac : ¬ g.IsCyclic)
  (hclear : ∀ m ∈ g.modules, Clear g m.dependencies)

include hg hg' hac hclear

lemma excused (σ : Reordering g g') {name : String} : Excused g' name ↔ Excused g name := by
  have hrenamed : (∃ m, g'.IsReached m ∧ ∃ p rs,
        .product p rs ∈ (g'.moduleAt m).dependencies ∧ (g'.productAt p).name = name ∧
          Renames g' (.product p rs)) ↔
      ∃ m, g.IsReached m ∧ ∃ p rs, .product p rs ∈ (g.moduleAt m).dependencies ∧
        (g.productAt p).name = name ∧ Renames g (.product p rs) := by
    rw [σ.module.surjective.exists]
    refine exists_congr fun m => ?_
    rw [σ.isReached]
    refine and_congr_right fun hm => ?_
    rw [σ.product.surjective.exists]
    refine exists₂_congr fun p rs => ?_
    rw [← dependency_product, σ.mem_dependencies, σ.name_product]
    exact and_congr_right fun hd => and_congr_right' (renames hg hg' hac hclear hm hd)
  have hsupported : (∀ p, IsConsumed g' p → (g'.productAt p).name = name →
        (g'.vendorOf p).tools.supportsProductAliasing = true) ↔
      ∀ p, IsConsumed g p → (g.productAt p).name = name →
        (g.vendorOf p).tools.supportsProductAliasing = true := by
    rw [σ.product.surjective.forall]
    refine forall_congr' fun p => ?_
    rw [isConsumed, σ.name_product]
    refine imp_congr_right fun hp => ?_
    rw [(vendorOf_consumed (σ := σ) hg hp).tools]
  exact ⟨fun h => ⟨hrenamed.1 h.renamed, hsupported.1 h.supported⟩,
    fun h => ⟨hrenamed.2 h.renamed, hsupported.2 h.supported⟩⟩

lemma tolerated (σ : Reordering g g') : Tolerated g' ↔ Tolerated g := by
  rw [Tolerated, σ.product.surjective.forall]
  refine forall_congr' fun p => ?_
  rw [σ.product.surjective.forall]
  refine forall_congr' fun q => ?_
  rw [isConsumed, isConsumed, σ.name_product, σ.name_product, excused hg hg' hac hclear σ]
  refine imp_congr_right fun hp => imp_congr_right fun hq => ?_
  rw [(vendorOf_consumed (σ := σ) hg hp).identity, (vendorOf_consumed (σ := σ) hg hq).identity]

lemma quiet_all (σ : Reordering g g') :
    (∀ m, g'.IsReached m → ∀ d ∈ (g'.moduleAt m).dependencies, Quiet g' d) ↔
      ∀ m, g.IsReached m → ∀ d ∈ (g.moduleAt m).dependencies, Quiet g d := by
  rw [σ.module.surjective.forall]
  refine forall_congr' fun m => ?_
  rw [σ.isReached, σ.forall_dependencies]
  exact imp_congr_right fun hm => forall₂_congr fun d hd => quiet hg hg' hac hclear hm hd

end Resolved

/-! ### Resolution -/

lemma coherent (hg : g.IsClosed) (hg' : g'.IsClosed) (σ : Reordering g g') :
    Coherent g' ↔ Coherent g := by
  by_cases hmeet : ¬ g.IsCyclic ∧ ∀ m ∈ g.modules, Clear g m.dependencies
  · obtain ⟨hac, hclear⟩ := hmeet
    have hsingle : (∀ m, g'.IsReached m → (otherNames g' (visibleFromRoots g') m).card ≤ 1) ↔
        ∀ m, g.IsReached m → (otherNames g (visibleFromRoots g) m).card ≤ 1 := by
      rw [σ.module.surjective.forall]
      simp only [σ.isReached, (matches_roots (σ := σ) hg hg' hac hclear).otherNames_eq]
    have hconsistent : (∀ m, g'.IsReached m →
          AliasMap.Consistent (demandedBy g' (visibleFromRoots g') (visible g' m) m)) ↔
        ∀ m, g.IsReached m →
          AliasMap.Consistent (demandedBy g (visibleFromRoots g) (visible g m) m) := by
      rw [σ.module.surjective.forall]
      simp only [σ.isReached]
      exact forall₂_congr fun m hm => consistent hg hg' hac hclear hm
    have htolerated := tolerated hg hg' hac hclear σ
    exact ⟨fun h => ⟨hac, hclear, hsingle.1 h.single, hconsistent.1 h.consistent,
        htolerated.1 h.tolerated⟩,
      fun h => ⟨σ.isCyclic.not.2 hac, (σ.clear_all hg).2 hclear, hsingle.2 h.single,
        hconsistent.2 h.consistent, htolerated.2 h.tolerated⟩⟩
  · refine iff_of_false (fun h => hmeet ⟨σ.isCyclic.not.1 h.acyclic, ?_⟩) fun h =>
      hmeet ⟨h.acyclic, h.clear⟩
    exact (σ.clear_all hg).1 h.clear

lemma hadError (hg : g.Assembled) (hg' : g'.Assembled) (σ : Reordering g g') {o o' : Outcome}
    (ho : resolve g = .ok o) (ho' : resolve g' = .ok o') (policy : Diagnostic.Policy) :
    (({ policy } : Diagnostic.Engine).diagnoseAll o'.log).hadError =
      (({ policy } : Diagnostic.Engine).diagnoseAll o.log).hadError := by
  rw [Bool.eq_iff_iff, hadError_iff hg'.isClosed hg'.isIdentified ho',
    hadError_iff hg.isClosed hg.isIdentified ho, σ.coherent hg.isClosed hg'.isClosed]
  refine imp_congr_right fun hc => ?_
  rw [quiet_all hg.isClosed hg'.isClosed hc.acyclic hc.clear σ]

lemma naming? (hg : g.IsClosed) (hg' : g'.IsClosed) (hc : Coherent g) (σ : Reordering g g')
    {o o' : Outcome} (ho : resolve g = .ok o) (ho' : resolve g' = .ok o') (m : ModuleId) :
    o'.resolution.naming? (σ.module m) = o.resolution.naming? m := by
  have hdecides := decides_of_resolve hg hc.acyclic ho
  have hdecides' := decides_of_resolve hg' (σ.isCyclic.not.2 hc.acyclic) ho'
  by_cases hm : g.IsReached m
  · have hmap : (mapOf g' (σ.module m)).aliases = (mapOf g m).aliases := by
      have hlog : (mapOf g m).log = [] := AliasMap.log_foldl_add.2 (hc.consistent m hm)
      have hlog' : (mapOf g' (σ.module m)).log = [] := AliasMap.log_foldl_add.2
        (((σ.coherent hg hg').2 hc).consistent _ (σ.isReached.2 hm))
      refine SortedMap.ext_get? fun k => Option.ext fun v => ?_
      rw [mapOf, mapOf, AliasMap.get?_foldl_add hlog', AliasMap.get?_foldl_add hlog]
      exact mem_demandedBy hg hg' hc.acyclic hc.clear hm
    rw [hdecides.naming m hm, hdecides'.naming _ (σ.isReached.2 hm), hmap,
      (matches_roots (σ := σ) hg hg' hc.acyclic hc.clear).chosenName_eq]
  · rw [hdecides.unreached m hm, hdecides'.unreached _ (σ.isReached.not.2 hm)]

end BuildPlanner.Reordering
