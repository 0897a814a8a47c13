import BuildPlanner.Proofs.Alias.Errors
import BuildPlanner.Proofs.Document.Assembled

/-!
How far the aliases of a dependency reach.

Emptying the aliases of one dependency on a product can only change names of modules that the
product leads to, with one exception: a request for a module's own name also applies to its other
names if nothing in the requester's product is called by that name any more, and that can be decided
by an unrelated module.
-/

namespace BuildPlanner

open Relation (ReflTransGen)

/-! ### Graphs without the aliases of a dependency -/

/-- The dependency without its aliases. -/
def Dependency.unaliased : Dependency → Dependency
  | .module m => .module m
  | .product p _ => .product p []

namespace Graph

open Alias (Edge)

/-- The graph in which a dependency asks for no aliases. -/
def unalias (g : Graph) (e : Edge) : Graph :=
  { g with
    modules := g.modules.modify e.consumer fun m =>
      { m with dependencies := m.dependencies.modify e.order Dependency.unaliased } }

variable {g : Graph} {e : Edge}

lemma moduleAt_unalias (m : ModuleId) :
    (g.unalias e).moduleAt m = { g.moduleAt m with
      dependencies := if e.consumer = m then
        (g.moduleAt m).dependencies.modify e.order Dependency.unaliased
      else (g.moduleAt m).dependencies } := by
  simp only [moduleAt, unalias, List.getD_eq_getElem?_getD, List.getElem?_modify]
  cases g.modules[m]? with
  | none => by_cases h : e.consumer = m <;> simp [h]
  | some x => by_cases h : e.consumer = m <;> simp [h]

@[simp] lemma name_unalias (m : ModuleId) :
    ((g.unalias e).moduleAt m).name = (g.moduleAt m).name := by
  rw [moduleAt_unalias]

@[simp] lemma ownerOf_unalias (m : ModuleId) : (g.unalias e).ownerOf m = g.ownerOf m := by
  rw [ownerOf, moduleAt_unalias]
  rfl

@[simp] lemma targets_unaliased (d : Dependency) : g.targets d.unaliased = g.targets d := by
  cases d <;> rfl

lemma getElem?_dependencies_unalias (m : ModuleId) (i : Nat) :
    ((g.unalias e).moduleAt m).dependencies[i]? = (g.moduleAt m).dependencies[i]?.map fun d =>
      if e = ⟨m, i⟩ then d.unaliased else d := by
  obtain ⟨c, j⟩ := e
  rw [moduleAt_unalias]
  by_cases hc : c = m
  · by_cases hj : j = i
    · simp [hc, hj]
    · simp [hc, hj]
  · simp [hc]

@[simp] lemma leads_unalias : (g.unalias e).Leads = g.Leads := by
  have htargets : ∀ d, (g.unalias e).targets d = g.targets d := fun d => by cases d <;> rfl
  ext m n
  rw [leads_iff_getElem?, leads_iff_getElem?]
  simp only [getElem?_dependencies_unalias, Option.map_eq_some_iff, htargets]
  refine ⟨?_, ?_⟩
  · rintro ⟨i, _, ⟨d, hd, rfl⟩, hn⟩
    refine ⟨i, d, hd, ?_⟩
    split at hn
    · rwa [targets_unaliased] at hn
    · exact hn
  · rintro ⟨i, d, hd, hn⟩
    refine ⟨i, _, ⟨d, hd, rfl⟩, ?_⟩
    split
    · rwa [targets_unaliased]
    · exact hn

lemma isReached_unalias {m : ModuleId} : (g.unalias e).IsReached m ↔ g.IsReached m := by
  rw [IsReached, leads_unalias]
  rfl

lemma IsClosed.unalias (h : g.IsClosed) : (g.unalias e).IsClosed := by
  have hlength : (g.unalias e).modules.length = g.modules.length := by simp [Graph.unalias]
  have hdangling : ∀ d, g.danglingFault? d = none → (g.unalias e).danglingFault? d = none :=
    fun d => danglingFault?_mono hlength.ge le_rfl
  obtain ⟨hpackages, hmodules, hproducts⟩ := h
  refine ⟨by rwa [hlength], fun m hm => ?_, by rwa [hlength]⟩
  rcases mem_modify hm with hm | ⟨x, hx, rfl⟩
  · exact ⟨(hmodules m hm).1, fun d hd => hdangling d ((hmodules m hm).2 d hd)⟩
  · refine ⟨(hmodules x hx).1, fun d hd => hdangling d ?_⟩
    rcases mem_modify hd with hd | ⟨y, hy, rfl⟩
    · exact (hmodules x hx).2 d hd
    · have hy := (hmodules x hx).2 y hy
      cases y <;> exact hy

lemma isCyclic_unalias : (g.unalias e).IsCyclic ↔ g.IsCyclic := by
  simp only [IsCyclic, isReached_unalias, leads_unalias]

end Graph

namespace Alias

variable {g : Graph} {e : Edge}

/-! ### Names that do not change -/

/-- Some module of a product's subgraph is called by a name there. -/
def IsCarried (g : Graph) (p : ProductId) (name : String) : Prop :=
  ∃ s ∈ seenIn g p, s.name = name

/-- Whether the requests on a product rename `d` hangs on whether the own name of `d` is carried:
they are for that name, and not for another name under which `d` is seen there. -/
def Hinges (g : Graph) (p : ProductId) (requests : List AliasRequest) (d : ModuleId) : Prop :=
  (g.ownerOf d).tools.supportsModuleAliasing ∧
    (replacement? requests (g.moduleAt d).name).isSome ∧
    ∃ name, (⟨d, name⟩ : Sighting) ∈ seenIn g p ∧ name ≠ (g.moduleAt d).name ∧
      replacement? requests name = none

/-- A sighting is relabelled the same way as long as nothing hangs on the own name being carried. -/
lemma relabelledName_unalias {requests : List AliasRequest} {base base' : Finset Sighting}
    {d : ModuleId} {old : String}
    (h : (g.ownerOf d).tools.supportsModuleAliasing →
      (replacement? requests (g.moduleAt d).name).isSome → old ≠ (g.moduleAt d).name →
        replacement? requests old = none →
          ((∃ t ∈ base', t.name = (g.moduleAt d).name) ↔
            ∃ t ∈ base, t.name = (g.moduleAt d).name)) :
    relabelledName (g.unalias e) requests base' ⟨d, old⟩ =
      relabelledName g requests base ⟨d, old⟩ := by
  simp only [relabelledName, Graph.name_unalias, Graph.ownerOf_unalias]
  by_cases htools : (g.ownerOf d).tools.supportsModuleAliasing
  · simp only [htools, if_true]
    cases hold : replacement? requests old with
    -- A request for the name itself comes first.
    | some name => rfl
    | none =>
      cases hown : replacement? requests (g.moduleAt d).name with
      | none => simp
      | some name =>
        by_cases hne : old = (g.moduleAt d).name
        · simp [hne]
        · -- The request for the own name waits on whether that is carried.
          have hcarried := h htools (by simp [hown]) hne hold
          have hiff : (∀ t ∈ base', t.name ≠ (g.moduleAt d).name) ↔
              ∀ t ∈ base, t.name ≠ (g.moduleAt d).name := by
            simpa using hcarried.not
          simp only [hiff]
  · simp [htools]

variable {p : ProductId} {aliases : List AliasRequest} {d : ModuleId}

/-- Wherever it hangs on the own name of `d` being carried whether `d` is renamed, the name is
carried with the aliases of the dependency exactly if it is without them. -/
def CarriedAlike (g : Graph) (e : Edge) (d : ModuleId) : Prop :=
  ∀ m i q rs, g.IsReached m → (g.moduleAt m).dependencies[i]? = some (.product q rs) →
    e ≠ ⟨m, i⟩ → Hinges g q (effective rs) d →
      (IsCarried (g.unalias e) q (g.moduleAt d).name ↔ IsCarried g q (g.moduleAt d).name)

lemma notMem_brought (hg : g.IsClosed) (hac : ¬ g.IsCyclic) {m : ModuleId} (hm : g.IsReached m)
    {i : Nat} {x : Dependency} (hx : (g.moduleAt m).dependencies[i]? = some x)
    (hd : ∀ n ∈ g.targets x, ¬ ReflTransGen g.Leads n d) (name : String) :
    (⟨d, name⟩ : Sighting) ∉ brought g (visible g) m (x, i) := by
  intro h
  obtain ⟨n, hn, hseen⟩ := exists_mem_brought.1 ⟨name, h⟩
  have hreached := hm.step (Graph.leads_of_getElem? hx hn)
  exact hd n hn ((exists_mem_visible_iff hg hac hreached).1 hseen)

section Seen

variable (hg : g.IsClosed) (hac : ¬ g.IsCyclic) (hclear : ∀ m ∈ g.modules, Clear g m.dependencies)
  (hclear' : ∀ m ∈ (g.unalias e).modules, Clear (g.unalias e) m.dependencies)
  (he : (g.moduleAt e.consumer).dependencies[e.order]? = some (.product p aliases))
  (hd : ∀ n ∈ (g.productAt p).modules, ¬ ReflTransGen g.Leads n d)
  (hcarried : CarriedAlike g e d) {m : ModuleId} (hm : g.IsReached m)

include hclear hclear' hcarried hm

/-- Through another dependency on a product a module is seen as it was, if that holds of the
modules of the product. -/
lemma mem_shown_unalias {q : ProductId} {rs : List AliasRequest} {i : Nat} (hother : e ≠ ⟨m, i⟩)
    (hx : (g.moduleAt m).dependencies[i]? = some (.product q rs))
    (hx' : ((g.unalias e).moduleAt m).dependencies[i]? = some (.product q rs))
    (hsee : ∀ n ∈ (g.productAt q).modules, ∀ name,
      (⟨d, name⟩ : Sighting) ∈ visible (g.unalias e) n ↔ (⟨d, name⟩ : Sighting) ∈ visible g n)
    (name : String) :
    (⟨d, name⟩ : Sighting) ∈ brought (g.unalias e) (visible (g.unalias e)) m (.product q rs, i) ↔
      (⟨d, name⟩ : Sighting) ∈ brought g (visible g) m (.product q rs, i) := by
  have hbase : ∀ old, (⟨d, old⟩ : Sighting) ∈ seenIn (g.unalias e) q ↔
      (⟨d, old⟩ : Sighting) ∈ seenIn g q := by
    intro old
    simp only [seenIn, Finset.mem_biUnion, List.mem_toFinset]
    exact exists_congr fun n => and_congr_right fun hn => hsee n hn old
  rw [brought_eq_shown hclear' hx', brought_eq_shown hclear hx, shown, shown, mem_relabelled,
    mem_relabelled]
  refine exists_congr fun old => ?_
  refine (and_congr_left' (hbase old)).trans (and_congr_right fun hold => ?_)
  have hname : relabelledName (g.unalias e) (effective rs) (seenIn (g.unalias e) q) ⟨d, old⟩ =
      relabelledName g (effective rs) (seenIn g q) ⟨d, old⟩ := by
    apply relabelledName_unalias
    intro htools hown hne hnone
    exact hcarried m i q rs hm hx hother ⟨htools, hown, old, hold, hne, hnone⟩
  exact Eq.congr_left hname

include hg hac he hd

lemma mem_brought_unalias
    (hsee : ∀ n, g.Leads m n → ∀ name,
      (⟨d, name⟩ : Sighting) ∈ visible (g.unalias e) n ↔ (⟨d, name⟩ : Sighting) ∈ visible g n)
    {i : Nat} {x : Dependency} (hx : (g.moduleAt m).dependencies[i]? = some x) (name : String) :
    (⟨d, name⟩ : Sighting) ∈ brought (g.unalias e) (visible (g.unalias e)) m
        (if e = ⟨m, i⟩ then x.unaliased else x, i) ↔
      (⟨d, name⟩ : Sighting) ∈ brought g (visible g) m (x, i) := by
  have hx' := Graph.getElem?_dependencies_unalias (e := e) (g := g) m i
  rw [hx, Option.map_some] at hx'
  by_cases hei : e = ⟨m, i⟩
  · subst hei
    obtain rfl : x = .product p aliases := Option.some.inj (hx.symm.trans he)
    rw [if_pos rfl] at hx' ⊢
    refine iff_of_false ?_ (notMem_brought hg hac hm hx hd name)
    apply notMem_brought hg.unalias (Graph.isCyclic_unalias.not.2 hac)
      (Graph.isReached_unalias.2 hm) hx'
    rw [Graph.leads_unalias]
    exact hd
  · rw [if_neg hei] at hx' ⊢
    cases x with
    | module n => exact hsee n (Graph.leads_of_getElem? hx (by simp [Graph.targets])) name
    | product q rs =>
      exact mem_shown_unalias hclear hclear' hcarried hm hei hx hx'
        (fun n hn => hsee n (Graph.leads_of_getElem? hx hn)) name

/-- A module that the product of the dependency does not lead to is seen under the same names. -/
lemma mem_visible_unalias (name : String) :
    (⟨d, name⟩ : Sighting) ∈ visible (g.unalias e) m ↔ (⟨d, name⟩ : Sighting) ∈ visible g m := by
  induction acc_of_isReached hg hac hm generalizing name with
  | intro m _ ih =>
    have hsee : ∀ n, g.Leads m n → ∀ name, (⟨d, name⟩ : Sighting) ∈ visible (g.unalias e) n ↔
        (⟨d, name⟩ : Sighting) ∈ visible g n := fun n hn => ih n hn (hm.step hn)
    have hdependency := fun i x hx =>
      mem_brought_unalias hg hac hclear hclear' he hd hcarried hm hsee (i := i) (x := x) hx name
    rw [mem_visible_iff hg.unalias (Graph.isCyclic_unalias.not.2 hac)
      (Graph.isReached_unalias.2 hm), mem_visible_iff hg hac hm, Graph.name_unalias]
    refine or_congr_right (exists_congr fun i => ?_)
    rw [Graph.getElem?_dependencies_unalias]
    refine ⟨?_, ?_⟩
    · rintro ⟨_, hx', hseen⟩
      obtain ⟨x, hx, rfl⟩ := Option.map_eq_some_iff.1 hx'
      exact ⟨x, hx, (hdependency i x hx).1 hseen⟩
    · rintro ⟨x, hx, hseen⟩
      exact ⟨_, by rw [hx]; rfl, (hdependency i x hx).2 hseen⟩

end Seen

/-- **Aliases are local.** If no error is reported with the aliases of a dependency and none
without them, every module that the product of the dependency does not lead to has the same final
name, unless it is renamed by a request for its own name that waits until nothing is called by that
name, and the aliases decide whether something is. -/
theorem finalName_unalias (hg : g.IsClosed)
    (he : (g.moduleAt e.consumer).dependencies[e.order]? = some (.product p aliases)) :
    ∃ o o', resolve g = .ok o ∧ resolve (g.unalias e) = .ok o' ∧
      ((∀ x ∈ o.log, x.code.severity ≠ .error) → (∀ x ∈ o'.log, x.code.severity ≠ .error) →
        ∀ d, (∀ n ∈ (g.productAt p).modules, ¬ ReflTransGen g.Leads n d) → CarriedAlike g e d →
          o'.resolution.finalName d = o.resolution.finalName d) := by
  obtain ⟨o, ho⟩ := exists_resolve hg
  obtain ⟨o', ho'⟩ := exists_resolve hg.unalias
  refine ⟨o, o', ho, ho', fun hlog hlog' d hd hcarried => ?_⟩
  obtain ⟨hac, hclear⟩ := clear_of_resolve hg ho hlog
  obtain ⟨hac', hclear'⟩ := clear_of_resolve hg.unalias ho' hlog'
  have hdecides := decides_of_resolve hg hac ho
  have hdecides' := decides_of_resolve hg.unalias hac' ho'
  by_cases hreached : g.IsReached d
  · have hseen : ∀ name, (⟨d, name⟩ : Sighting) ∈ visibleFromRoots (g.unalias e) ↔
        (⟨d, name⟩ : Sighting) ∈ visibleFromRoots g := by
      intro name
      simp only [visibleFromRoots, Finset.mem_biUnion, List.mem_toFinset]
      exact exists_congr fun r => and_congr_right fun hr =>
        mem_visible_unalias hg hac hclear hclear' he hd hcarried (Graph.isReached_root hr) name
    have hothers : otherNames (g.unalias e) (visibleFromRoots (g.unalias e)) d =
        otherNames g (visibleFromRoots g) d := by
      ext name
      rw [mem_otherNames, mem_otherNames, hseen, Graph.name_unalias]
    rw [hdecides.finalName_eq hreached,
      hdecides'.finalName_eq (Graph.isReached_unalias.2 hreached), chosenName, chosenName, hothers,
      Graph.name_unalias]
  · have hreached' : ¬ (g.unalias e).IsReached d := Graph.isReached_unalias.not.2 hreached
    rw [Resolution.finalName, Resolution.finalName, hdecides.unreached d hreached,
      hdecides'.unreached d hreached']

/-- An application that asks for the modules `Utils` of two libraries under other names. -/
def siblings : Graph where
  packages := [
    { identity := "app", display := "app", isRoot := true, modules := [0] },
    { identity := "left", display := "left", modules := [1], products := [0] },
    { identity := "right", display := "right", modules := [2], products := [1] }]
  modules := [
    { name := "App", dependencies := [
      .product 0 [⟨"Utils", "LeftUtils"⟩], .product 1 [⟨"Utils", "RightUtils"⟩]] },
    { name := "Utils", owner := 1 },
    { name := "Utils", owner := 2 }]
  products := [
    { name := "LeftLib", owner := 1, modules := [1] },
    { name := "RightLib", owner := 2, modules := [2] }]

theorem finalName_unalias_siblings : siblings.IsClosed ∧
    (siblings.moduleAt 0).dependencies[0]? = some (.product 0 [⟨"Utils", "LeftUtils"⟩]) ∧
    ∃ o o', resolve siblings = .ok o ∧ resolve (siblings.unalias ⟨0, 0⟩) = .ok o' ∧
      o'.resolution.finalName 2 = o.resolution.finalName 2 ∧
      (o.resolution.finalName 2).toOption = some "RightUtils" := by
  have hg : siblings.IsClosed := by decide
  have he : (siblings.moduleAt 0).dependencies[0]? =
      some (.product 0 [⟨"Utils", "LeftUtils"⟩]) := rfl
  obtain ⟨x, hx, hquiet⟩ := resolve_of_any (g := siblings) (p := fun o => o.log = [] &&
    (o.resolution.finalName 2).toOption = some "RightUtils") (by decide +kernel)
  obtain ⟨x', hx', hquiet'⟩ := resolve_of_any (g := siblings.unalias ⟨0, 0⟩)
    (p := fun o => o.log = []) (by decide +kernel)
  obtain ⟨hlog, hright⟩ := Bool.and_eq_true_iff.1 hquiet
  obtain ⟨o, o', ho, ho', hname⟩ := finalName_unalias (e := ⟨0, 0⟩) hg he
  obtain rfl := Except.ok.inj (ho.symm.trans hx)
  obtain rfl := Except.ok.inj (ho'.symm.trans hx')
  refine ⟨hg, he, o, o', ho, ho', hname ?_ ?_ 2 ?_ ?_, of_decide_eq_true hright⟩
  · simp [of_decide_eq_true hlog]
  · simp [of_decide_eq_true hquiet']
  · -- The left library is one module that depends on nothing.
    intro n hn h
    obtain rfl : n = 1 := List.mem_singleton.1 hn
    rcases h.cases_head with h | ⟨k, hk, -⟩
    · cases h
    · obtain ⟨d, hd, -⟩ := Graph.leads_iff.1 hk
      cases hd
  · -- In both libraries the modules are seen under their own names alone.
    intro m i q rs _ hd _ hhinges
    obtain ⟨-, -, name, hseen, hother, -⟩ := hhinges
    have hq : q < 2 := hg.product_lt (List.mem_of_getElem? hd)
    have hown : ∀ q < 2, ∀ s ∈ seenIn siblings q, s.name = "Utils" := by decide +kernel
    exact absurd (hown q hq _ hseen) hother

/-- `App` asks for `Utils` behind `Mid` under another name. There, `Left` asks for one module
`Utils` under another name, and `Right` for the module `Tools` under the name `Utils`. -/
def crossed : Graph where
  packages := [
    { identity := "app", display := "app", isRoot := true, modules := [0] },
    { identity := "mid", display := "mid", modules := [1, 2], products := [0] },
    { identity := "old", display := "old", modules := [3], products := [1] },
    { identity := "new", display := "new", modules := [4], products := [2] }]
  modules := [
    { name := "App", sources := { swift := true }
      dependencies := [.product 0 [⟨"Utils", "AppUtils"⟩]] },
    { name := "Left", owner := 1, sources := { swift := true }
      dependencies := [.product 1 [⟨"Utils", "OldUtils"⟩]] },
    { name := "Right", owner := 1, sources := { swift := true }
      dependencies := [.product 2 [⟨"Tools", "Utils"⟩]] },
    { name := "Utils", owner := 2, sources := { swift := true } },
    { name := "Tools", owner := 3, sources := { swift := true } }]
  products := [
    { name := "Mid", owner := 1, modules := [1, 2] },
    { name := "OldLib", owner := 2, modules := [3] },
    { name := "NewLib", owner := 3, modules := [4] }]

/-- The description of `crossed`. -/
def crossedDocument : Document where
  packages := [
    { identity := "app", isRoot := true
      modules := [
        { name := "App"
          dependencies := [
            { product := "Mid", package := "mid"
              aliases := .ofList [("Utils", "AppUtils")] }] }] },
    { identity := "mid"
      modules := [
        { name := "Left"
          dependencies := [
            { product := "OldLib", package := "old"
              aliases := .ofList [("Utils", "OldUtils")] }] },
        { name := "Right"
          dependencies := [
            { product := "NewLib", package := "new"
              aliases := .ofList [("Tools", "Utils")] }] }]
      products := [{ name := "Mid", modules := ["Left", "Right"] }] },
    { identity := "old"
      modules := [{ name := "Utils" }]
      products := [{ name := "OldLib", modules := ["Utils"] }] },
    { identity := "new"
      modules := [{ name := "Tools" }]
      products := [{ name := "NewLib", modules := ["Tools"] }] }]

/-- Whether the request of `App` applies to the renamed `Utils` hangs on `Tools` being called
`Utils`, so the aliases of `Right` decide the name of a module that they have no part in. -/
theorem finalName_unalias_crossed : crossed.Assembled ∧
    (crossed.moduleAt 2).dependencies[0]? = some (.product 2 [⟨"Tools", "Utils"⟩]) ∧
    (∀ n ∈ (crossed.productAt 2).modules, ¬ ReflTransGen crossed.Leads n 3) ∧
    ∃ o o', resolve crossed = .ok o ∧ resolve (crossed.unalias ⟨2, 0⟩) = .ok o' ∧
      o.log = [] ∧ o'.log = [] ∧
      (o.resolution.finalName 3).toOption = some "OldUtils" ∧
      (o'.resolution.finalName 3).toOption = some "AppUtils" := by
  obtain ⟨o, ho, hp⟩ := resolve_of_any (g := crossed) (p := fun o => o.log = [] &&
    (o.resolution.finalName 3).toOption = some "OldUtils") (by decide +kernel)
  obtain ⟨o', ho', hp'⟩ := resolve_of_any (g := crossed.unalias ⟨2, 0⟩) (p := fun o => o.log = [] &&
    (o.resolution.finalName 3).toOption = some "AppUtils") (by decide +kernel)
  obtain ⟨hlog, hold⟩ := Bool.and_eq_true_iff.1 hp
  obtain ⟨hlog', happ⟩ := Bool.and_eq_true_iff.1 hp'
  have hdescribed : crossedDocument.toGraph.toOption = some crossed := by decide +kernel
  refine ⟨Document.assembled_of_toGraph (Fault.toOption_eq_some.1 hdescribed), rfl, ?_, o, o', ho,
    ho', of_decide_eq_true hlog, of_decide_eq_true hlog', of_decide_eq_true hold,
    of_decide_eq_true happ⟩
  intro n hn h
  obtain rfl : n = 4 := List.mem_singleton.1 hn
  rcases h.cases_head with h | ⟨k, hk, -⟩
  · cases h
  · obtain ⟨d, hd, -⟩ := Graph.leads_iff.1 hk
    cases hd

end Alias

end BuildPlanner
