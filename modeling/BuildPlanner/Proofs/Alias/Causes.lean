import BuildPlanner.Proofs.Alias.Errors

/-!
Why a module is called by another name than its own.

A survey begins with views in which every module has its own name, and a settled dependency gives
no name that is neither there before nor asked for. So at every moment of a survey, what is seen
under another name is explained by a request that survived, on a dependency that leads to the
module, and that the package of the module allows (`Sound.settle`). Final names are among those that
are seen from the roots in the end.
-/

namespace BuildPlanner.Alias

open Relation (ReflTransGen)

variable {g : Graph}

/-! ### Definitions -/

/-- A request can rename a module: it survives on a dependency of a reached module, on a product
that leads to the module, and the package of the module allows it. -/
structure Cause (g : Graph) (e : Edge) (r : AliasRequest) (d : ModuleId) : Prop where
  reached : g.IsReached e.consumer
  survives : r ∈ survivors g e.consumer e.order
  leads : ∃ p rs, (g.moduleAt e.consumer).dependencies[e.order]? = some (.product p rs) ∧
    ∃ n ∈ (g.productAt p).modules, ReflTransGen g.Leads n d
  allowed : (g.ownerOf d).tools.supportsModuleAliasing = true

/-- A module is seen under its own name, or something can rename it to what it is called. -/
def Explained (g : Graph) (s : Sighting) : Prop :=
  s.name ≠ (g.moduleAt s.module).name → ∃ e r, Cause g e r s.module ∧ r.replacement = s.name

/-- No product with requests of a reached module that survive leads to the module. -/
def IsApart (g : Graph) (d : ModuleId) : Prop :=
  ∀ m i p rs, g.IsReached m → (g.moduleAt m).dependencies[i]? = some (.product p rs) →
    survivors g m i ≠ [] → ∀ n ∈ (g.productAt p).modules, ¬ ReflTransGen g.Leads n d

namespace Survey

/-- The views that a survey holds, and those it puts together from them: of a product, of a product
behind a dependency of a reached module, and of the root modules. -/
inductive Shows (g : Graph) (s : Survey) : View → Prop
  | module (m : ModuleId) : Shows g s (s.view m)
  | product (p : ProductId) (rs : List AliasRequest) : Shows g s (s.base g (.product p rs))
  | dependency {m : ModuleId} {i : Nat} {p : ProductId} {rs : List AliasRequest}
      (hm : g.IsReached m) (hd : (g.moduleAt m).dependencies[i]? = some (.product p rs)) :
      Shows g s (Layer.relabel g ⟨p, survivors g m i⟩ (s.base g (.product p rs)))
  | roots : Shows g s (s.reach g)

/-- The survey after some dependencies are settled. -/
def after (g : Graph) (es : List Edge) : Survey :=
  es.foldl (settle g (g.modules.map (Screening.ofModule g))) (start g)

/-- A view that comes up at some moment of the survey of a graph. -/
def IsShown (g : Graph) (v : View) : Prop :=
  ∃ es, es <+: (Walk.ofGraph g).settled ∧ (after g es).Shows g v

/-- Views hold modules that their modules lead to, under names that are explained. -/
structure Sound (g : Graph) (s : Survey) : Prop where
  leads : ∀ m, ∀ x ∈ (s.view m).sightings, ReflTransGen g.Leads m x.module
  explained : ∀ m, ∀ x ∈ (s.view m).sightings, Explained g x

end Survey

/-! ### What a layer does to names -/

lemma exists_of_replacement? {rs : List AliasRequest} {name new : String}
    (h : replacement? rs name = some new) : ∃ r ∈ rs, r.replacement = new := by
  obtain ⟨r, hr, hnew⟩ := Option.map_eq_some_iff.1 h
  exact ⟨r, List.mem_of_find?_eq_some hr, hnew⟩

lemma relabelledName_eq_or (rs : List AliasRequest) (base : Finset Sighting) (s : Sighting) :
    relabelledName g rs base s = s.name ∨
      (g.ownerOf s.module).tools.supportsModuleAliasing = true ∧
        ∃ r ∈ rs, r.replacement = relabelledName g rs base s := by
  unfold relabelledName
  split
  · next htools =>
    cases hname : replacement? rs s.name with
    | some new => exact .inr ⟨htools, exists_of_replacement? hname⟩
    | none =>
      dsimp only
      split
      · -- The own name is not carried, so that requests for it apply as well.
        cases hown : replacement? rs (g.moduleAt s.module).name with
        | some new => exact .inr ⟨htools, exists_of_replacement? hown⟩
        | none => exact .inl rfl
      · exact .inl rfl
  · exact .inl rfl

lemma explained_relabelled {m : ModuleId} {i : Nat} {p : ProductId} {rs : List AliasRequest}
    (hm : g.IsReached m) (hd : (g.moduleAt m).dependencies[i]? = some (.product p rs))
    {base : Finset Sighting} (hbase : ∀ x ∈ base, Explained g x ∧
      ∃ n ∈ (g.productAt p).modules, ReflTransGen g.Leads n x.module) {x : Sighting}
    (hx : x ∈ relabelled g (survivors g m i) base) : Explained g x := by
  obtain ⟨d, name⟩ := x
  obtain ⟨old, hold, rfl⟩ := mem_relabelled.1 hx
  obtain ⟨hexplained, hleads⟩ := hbase _ hold
  rcases relabelledName_eq_or (survivors g m i) base ⟨d, old⟩ with hkept | ⟨htools, r, hr, hname⟩
  · rwa [hkept]
  · exact fun _ => ⟨⟨m, i⟩, r, ⟨hm, hr, ⟨p, rs, hd, hleads⟩, htools⟩, hname⟩

/-! ### Along a survey -/

namespace Survey

variable {s : Survey}

lemma sound_start (g : Graph) : Sound g (start g) := by
  have hown : ∀ m, ∀ x ∈ ((start g).view m).sightings, x = ⟨m, (g.moduleAt m).name⟩ := by
    intro m x hx
    rw [view_start] at hx
    split at hx
    · simpa only [View.sightings_own, Finset.mem_singleton] using hx
    · exact absurd hx (Finset.notMem_empty x)
  refine ⟨fun m x hx => ?_, fun m x hx => ?_⟩
  · rw [hown m x hx]
  · rw [hown m x hx]
    exact fun hne => absurd rfl hne

lemma Sound.base (h : Sound g s) {p : ProductId} {x : Sighting}
    (hx : x ∈ (g.productAt p).modules.toFinset.biUnion fun n => (s.view n).sightings) :
    Explained g x ∧ ∃ n ∈ (g.productAt p).modules, ReflTransGen g.Leads n x.module := by
  obtain ⟨n, hn, hx⟩ := Finset.mem_biUnion.1 hx
  exact ⟨h.explained n x hx, n, List.mem_toFinset.1 hn, h.leads n x hx⟩

lemma Sound.brought (h : Sound g s) {m : ModuleId} (hm : g.IsReached m) {i : Nat} {d : Dependency}
    (hd : (g.moduleAt m).dependencies[i]? = some d) {x : Sighting}
    (hx : x ∈ brought g (fun n => (s.view n).sightings) m (d, i)) :
    ReflTransGen g.Leads m x.module ∧ Explained g x := by
  refine ⟨?_, ?_⟩
  · obtain ⟨k, name⟩ := x
    obtain ⟨n, hn, old, hseen⟩ := exists_mem_brought.1 ⟨name, hx⟩
    exact .head (Graph.leads_of_getElem? hd hn) (h.leads n ⟨k, old⟩ hseen)
  · cases d with
    | module n => exact h.explained n x hx
    | product p rs => exact explained_relabelled hm hd (fun x => h.base) hx

/-- **A settled dependency gives only names that are explained.** -/
theorem Sound.settle (h : Sound g s) {e : Edge} (he : g.IsReached e.consumer) :
    Sound g (s.settle g (g.modules.map (Screening.ofModule g)) e) := by
  cases hd : (g.moduleAt e.consumer).dependencies[e.order]? with
  | none =>
    unfold Survey.settle
    rwa [hd]
  | some d =>
    -- What is seen was seen before, or is what the dependency brings to its module.
    have hseen (m : ModuleId) (x : Sighting)
        (hx : x ∈ ((s.settle g (g.modules.map (Screening.ofModule g)) e).view m).sightings) :
        x ∈ (s.view m).sightings ∨ m = e.consumer ∧
          x ∈ Alias.brought g (fun n => (s.view n).sightings) e.consumer (d, e.order) := by
      rw [view_settle s hd] at hx
      split at hx
      · next hm =>
        rw [View.sightings_merge, Finset.mem_union, sightings_bring] at hx
        exact hx.imp_right fun hx => ⟨hm.1.symm, hx⟩
      · exact .inl hx
    refine ⟨fun m x hx => ?_, fun m x hx => ?_⟩
    · rcases hseen m x hx with hx | ⟨hm, hx⟩
      · exact h.leads m x hx
      · exact hm ▸ (h.brought he hd hx).1
    · rcases hseen m x hx with hx | ⟨-, hx⟩
      · exact h.explained m x hx
      · exact (h.brought he hd hx).2

lemma sound_after {es : List Edge} (h : ∀ e ∈ es, g.IsReached e.consumer) : Sound g (after g es) :=
  List.foldlRecOn es _ (sound_start g) fun _ hs e he => hs.settle (h e he)

lemma Sound.shows (h : Sound g s) {v : View} (hv : s.Shows g v) {x : Sighting}
    (hx : x ∈ v.sightings) : Explained g x := by
  cases hv with
  | module m => exact h.explained m x hx
  | product p rs =>
    rw [sightings_base] at hx
    exact (h.base hx).1
  | dependency hm hd =>
    rw [Layer.sightings_relabel, sightings_base] at hx
    exact explained_relabelled hm hd (fun x => h.base) hx
  | roots =>
    rw [reach, View.sightings_foldl_merge, View.sightings_empty, Finset.empty_union] at hx
    obtain ⟨m, -, hx⟩ := Finset.mem_biUnion.1 hx
    exact h.explained m x hx

end Survey

/-! ### Final names -/

lemma Explained.eq_own {d : ModuleId} {name : String} (h : Explained g ⟨d, name⟩)
    (hd : (g.ownerOf d).tools.before .moduleAliasing = true ∨ IsApart g d) :
    name = (g.moduleAt d).name := by
  by_contra hne
  obtain ⟨e, r, hcause, -⟩ := h hne
  rcases hd with hold | hapart
  · have hyoung : (g.ownerOf d).tools.atLeast .moduleAliasing = true := hcause.allowed
    simp [Version.before, hyoung] at hold
  · obtain ⟨p, rs, hdep, n, hn, hleads⟩ := hcause.leads
    exact hapart _ _ p rs hcause.reached hdep (List.ne_nil_of_mem hcause.survives) n hn hleads

/-- **Renames have a cause.** Whatever is shown at any moment of the survey is explained. A reached
module has a final name. If that is not its own, it is valid, and a request for it survived that can
rename the module. A module of a package too old for aliases keeps its own name in every view and to
the end, and so does a module that no product with surviving requests leads to. -/
theorem renames_caused (hg : g.IsClosed) (hac : ¬ g.IsCyclic) :
    (∀ v, Survey.IsShown g v → ∀ x ∈ v.sightings, Explained g x) ∧
    ∃ o, resolve g = .ok o ∧
      (∀ d, g.IsReached d → ∃ name, o.resolution.finalName d = .ok name ∧
        (name ≠ (g.moduleAt d).name → Name.isValid name = true ∧
          ∃ e r, Cause g e r d ∧ r.replacement = name)) ∧
      ∀ d, (g.ownerOf d).tools.before .moduleAliasing = true ∨ IsApart g d →
        (g.IsReached d → o.resolution.finalName d = .ok (g.moduleAt d).name) ∧
        ∀ v, Survey.IsShown g v → ∀ name, (⟨d, name⟩ : Sighting) ∈ v.sightings →
          name = (g.moduleAt d).name := by
  obtain ⟨hw, -⟩ := (Walk.ofGraph_cycle hg).2 hac
  obtain ⟨o, ho, hdecides⟩ := resolve_of_not_isCyclic hg hac
  have hshown : ∀ v, Survey.IsShown g v → ∀ x ∈ v.sightings, Explained g x := by
    rintro v ⟨es, hes, hv⟩ x hx
    exact (Survey.sound_after fun e he => hw.consumer_reached e (hes.subset he)).shows hv hx
  have hchosen : ∀ d, Explained g ⟨d, chosenName g (visibleFromRoots g) d⟩ := by
    intro d hne
    have hother : chosenName g (visibleFromRoots g) d ∈ otherNames g (visibleFromRoots g) d :=
      chosenName_of_nonempty (Finset.nonempty_iff_ne_empty.2 (chosenName_eq_own_iff.not.1 hne))
    have hseen : ⟨d, chosenName g (visibleFromRoots g) d⟩ ∈
        ((Survey.ofGraph g).reach g).sightings := by
      rw [Survey.sightings_reach hg hac]
      exact (mem_otherNames.1 hother).1
    exact hshown _ ⟨_, List.prefix_rfl, .roots⟩ _ hseen hne
  refine ⟨hshown, o, ho, fun d hd => ⟨_, hdecides.finalName_eq hd, fun hne => ?_⟩, fun d hd =>
    ⟨fun hreached => ?_, fun v hv name hx => (hshown v hv _ hx).eq_own hd⟩⟩
  · obtain ⟨e, r, hcause, hname⟩ := hchosen d hne
    have hvalid := isValid_of_mem_survivors hcause.survives
    rw [hname] at hvalid
    exact ⟨hvalid, e, r, hcause, hname⟩
  · rw [hdecides.finalName_eq hreached, (hchosen d).eq_own hd]

/-- An application that asks for modules of two libraries under other names. One of the libraries is
too old. -/
def outdated : Graph where
  packages := [
    { identity := "app", display := "app", isRoot := true, modules := [0] },
    { identity := "lib", display := "lib", modules := [1], products := [0] },
    { identity := "old", display := "old", tools := ⟨[5, 6]⟩, modules := [2], products := [1] }]
  modules := [
    { name := "App", dependencies := [
      .product 0 [⟨"Utils", "FooUtils"⟩], .product 1 [⟨"Logging", "OldLogging"⟩]] },
    { name := "Utils", owner := 1 },
    { name := "Logging", owner := 2 }]
  products := [
    { name := "Lib", owner := 1, modules := [1] },
    { name := "Old", owner := 2, modules := [2] }]

theorem renames_caused_outdated : outdated.IsClosed ∧ ¬ outdated.IsCyclic ∧
    ∃ o e r, resolve outdated = .ok o ∧ o.resolution.finalName 1 = .ok "FooUtils" ∧
      Cause outdated e r 1 ∧ r.replacement = "FooUtils" ∧
      survivors outdated 0 1 = [⟨"Logging", "OldLogging"⟩] ∧
      o.resolution.finalName 2 = .ok "Logging" := by
  have hg : outdated.IsClosed := by decide
  have hac : ¬ outdated.IsCyclic := Walk.not_isCyclic hg (by decide)
  obtain ⟨-, o, ho, hnames, hkept⟩ := renames_caused hg hac
  obtain ⟨o', ho', hutils⟩ := resolve_of_any (g := outdated)
    (p := fun o => (o.resolution.finalName 1).toOption = some "FooUtils") (by decide +kernel)
  obtain rfl := Except.ok.inj (ho.symm.trans ho')
  have hfoo : o.resolution.finalName 1 = .ok "FooUtils" :=
    Fault.toOption_eq_some.1 (of_decide_eq_true hutils)
  have happ : outdated.IsReached 0 := Graph.isReached_root (by decide)
  obtain ⟨name, hname, hcaused⟩ := hnames 1
    (happ.step (Graph.leads_of_getElem? (i := 0) rfl (by decide)))
  obtain rfl := Except.ok.inj (hname.symm.trans hfoo)
  obtain ⟨-, e, r, hcause, hr⟩ := hcaused (by decide)
  exact ⟨hg, hac, o, e, r, ho, hfoo, hcause, hr, by decide +kernel,
    (hkept 2 (.inl (by decide))).1
      (happ.step (Graph.leads_of_getElem? (i := 1) rfl (by decide)))⟩

end BuildPlanner.Alias
