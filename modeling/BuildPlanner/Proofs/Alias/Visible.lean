import BuildPlanner.Alias.View
import BuildPlanner.Proofs.Alias.Walk
import Mathlib.Data.Finset.Union

/-!
What a module sees, as a recursion over the graph that keeps nothing.

A module sees itself under its own name, what the modules it depends on see, and what the modules
of a product see, relabelled as the surviving requests on the dependency say. The recursion is
bounded by a depth; where no cycle is reached the number of modules is depth enough, so that what
a module sees is what its dependencies bring (`visible_eq`), and it sees exactly the modules that
it leads to (`exists_mem_visible_iff`).
-/

namespace BuildPlanner.Alias

open Relation (ReflTransGen)

/-! ### Definitions -/

/-- The name that requests put in the place of a name. -/
def replacement? (requests : List AliasRequest) (name : String) : Option String :=
  (requests.find? (·.name = name)).map (·.replacement)

/-- The name that a sighting has after all sightings of `base` were relabelled at once. A request
for a module's own name applies to its other names when nothing in `base` carries the own name. -/
def relabelledName (g : Graph) (requests : List AliasRequest) (base : Finset Sighting)
    (s : Sighting) : String :=
  let own := (g.moduleAt s.module).name
  if (g.ownerOf s.module).tools.supportsModuleAliasing then
    match replacement? requests s.name with
    | some name => name
    | none =>
      if s.name ≠ own ∧ ∀ t ∈ base, t.name ≠ own then (replacement? requests own).getD s.name
      else s.name
  else s.name

def relabelled (g : Graph) (requests : List AliasRequest) (base : Finset Sighting) :
    Finset Sighting :=
  base.image fun s => ⟨s.module, relabelledName g requests base s⟩

/-- The requests on the dependency at a position that survive screening. -/
def survivors (g : Graph) (m : ModuleId) (i : Nat) : List AliasRequest :=
  (Screening.ofModule g (g.moduleAt m)).requests i

/-- What a dependency of `m`, given with its position, brings when `see` is what modules see. -/
def brought (g : Graph) (see : ModuleId → Finset Sighting) (m : ModuleId) :
    Dependency × Nat → Finset Sighting
  | (.module n, _) => see n
  | (.product p _, i) =>
    relabelled g (survivors g m i) ((g.productAt p).modules.toFinset.biUnion see)

/-- A module sees itself, and what its dependencies bring. -/
def visibleStep (g : Graph) (see : ModuleId → Finset Sighting) (m : ModuleId) : Finset Sighting :=
  insert ⟨m, (g.moduleAt m).name⟩
    ((g.moduleAt m).dependencies.zipIdx.toFinset.biUnion (brought g see m))

def visibleTo (g : Graph) : (depth : Nat) → ModuleId → Finset Sighting
  | 0, _ => ∅
  | depth + 1, m => visibleStep g (visibleTo g depth) m

/-- What a module sees. -/
def visible (g : Graph) (m : ModuleId) : Finset Sighting := visibleTo g g.modules.length m

def seenIn (g : Graph) (p : ProductId) : Finset Sighting :=
  (g.productAt p).modules.toFinset.biUnion (visible g)

/-- What is seen from the root modules together. -/
def visibleFromRoots (g : Graph) : Finset Sighting := g.rootModules.toFinset.biUnion (visible g)

variable {g : Graph}

/-! ### The recursion -/

lemma mem_zipIdx {m : ModuleId} {d : Dependency × Nat} :
    d ∈ (g.moduleAt m).dependencies.zipIdx.toFinset ↔
      (g.moduleAt m).dependencies[d.2]? = some d.1 := by
  rw [List.mem_toFinset, List.mem_zipIdx_iff_getElem?]

lemma mem_visibleStep {see : ModuleId → Finset Sighting} {m : ModuleId} {s : Sighting} :
    s ∈ visibleStep g see m ↔ s = ⟨m, (g.moduleAt m).name⟩ ∨
      ∃ i d, (g.moduleAt m).dependencies[i]? = some d ∧ s ∈ brought g see m (d, i) := by
  simp only [visibleStep, Finset.mem_insert, Finset.mem_biUnion, mem_zipIdx]
  refine ⟨?_, ?_⟩
  · rintro (h | ⟨⟨d, i⟩, hd, h⟩)
    · exact .inl h
    · exact .inr ⟨i, d, hd, h⟩
  · rintro (h | ⟨i, d, hd, h⟩)
    · exact .inl h
    · exact .inr ⟨(d, i), hd, h⟩

lemma brought_congr {see see' : ModuleId → Finset Sighting} {m : ModuleId} {d : Dependency × Nat}
    (h : ∀ n ∈ g.targets d.1, see n = see' n) : brought g see m d = brought g see' m d := by
  rcases d with ⟨n | ⟨p, aliases⟩, i⟩
  · exact h n (by simp [Graph.targets])
  · have : (g.productAt p).modules.toFinset.biUnion see =
        (g.productAt p).modules.toFinset.biUnion see' :=
      Finset.biUnion_congr rfl fun n hn => h n (List.mem_toFinset.1 hn)
    simp only [brought, this]

lemma visibleStep_congr {see see' : ModuleId → Finset Sighting} {m : ModuleId}
    (h : ∀ n, g.Leads m n → see n = see' n) : visibleStep g see m = visibleStep g see' m := by
  have : ∀ d ∈ (g.moduleAt m).dependencies.zipIdx.toFinset,
      brought g see m d = brought g see' m d := fun d hd =>
    brought_congr fun n hn => h n (Graph.leads_of_getElem? (mem_zipIdx.1 hd) hn)
  rw [visibleStep, visibleStep, Finset.biUnion_congr rfl this]

/-- Behind a path of reached modules, a depth that the path has used up is deep enough. -/
lemma visibleTo_of_le (hg : g.IsClosed) (hac : ¬ g.IsCyclic) (k : Nat) :
    ∀ (path : List ModuleId) (m : ModuleId), (path ++ [m]).IsChain g.Leads →
      (∀ n ∈ path ++ [m], g.IsReached n) → g.modules.length ≤ k + path.length →
      ∀ k' ≥ k, visibleTo g k' m = visibleTo g k m := by
  induction k with
  | zero =>
    intro path m hchain hreached hk
    have hnodup := Graph.nodup_of_isChain hac hchain hreached
    have hlong := Graph.length_le_of_nodup hnodup fun n hn => hg.reached_lt (hreached n hn)
    simp only [List.length_append, List.length_singleton] at hlong
    omega
  | succ k ih =>
    intro path m hchain hreached hk k' hk'
    obtain ⟨k', rfl⟩ : ∃ j, k' = j + 1 := ⟨k' - 1, by omega⟩
    refine visibleStep_congr fun n hn => ?_
    refine ih (path ++ [m]) n (hchain.append (.singleton n) (by simpa using hn)) (fun x hx => ?_)
      (by simp only [List.length_append, List.length_singleton]; omega) k' (by omega)
    rcases List.mem_append.1 hx with hx | hx
    · exact hreached x hx
    · obtain rfl := List.mem_singleton.1 hx
      exact (hreached m (by simp)).step hn

/-- **What a module sees is itself and what its dependencies bring.** -/
theorem visible_eq (hg : g.IsClosed) (hac : ¬ g.IsCyclic) {m : ModuleId} (hm : g.IsReached m) :
    visible g m = visibleStep g (visible g) m :=
  (visibleTo_of_le hg hac g.modules.length [] m (.singleton m) (by simpa using hm) (by simp)
    (g.modules.length + 1) (by omega)).symm

lemma mem_visible_iff (hg : g.IsClosed) (hac : ¬ g.IsCyclic) {m : ModuleId}
    (hm : g.IsReached m) {s : Sighting} :
    s ∈ visible g m ↔ s = ⟨m, (g.moduleAt m).name⟩ ∨
      ∃ i d, (g.moduleAt m).dependencies[i]? = some d ∧ s ∈ brought g (visible g) m (d, i) := by
  rw [visible_eq hg hac hm, mem_visibleStep]

/-! ### Modules in sight -/

lemma mem_relabelled {requests : List AliasRequest} {base : Finset Sighting} {d : ModuleId}
    {name : String} : (⟨d, name⟩ : Sighting) ∈ relabelled g requests base ↔
      ∃ old, (⟨d, old⟩ : Sighting) ∈ base ∧ relabelledName g requests base ⟨d, old⟩ = name := by
  simp only [relabelled, Finset.mem_image, Sighting.mk.injEq]
  refine ⟨?_, ?_⟩
  · rintro ⟨⟨k, old⟩, hs, rfl, hname⟩
    exact ⟨old, hs, hname⟩
  · rintro ⟨old, hs, hname⟩
    exact ⟨⟨d, old⟩, hs, rfl, hname⟩

lemma exists_mem_relabelled {requests : List AliasRequest} {base : Finset Sighting}
    {n : ModuleId} :
    (∃ name, (⟨n, name⟩ : Sighting) ∈ relabelled g requests base) ↔
      ∃ name, (⟨n, name⟩ : Sighting) ∈ base := by
  simp only [relabelled, Finset.mem_image, Sighting.mk.injEq]
  refine ⟨?_, ?_⟩
  · rintro ⟨name, ⟨k, old⟩, hs, rfl, -⟩
    exact ⟨old, hs⟩
  · rintro ⟨old, hs⟩
    exact ⟨_, ⟨n, old⟩, hs, rfl, rfl⟩

lemma exists_mem_brought {see : ModuleId → Finset Sighting} {m n : ModuleId}
    {d : Dependency × Nat} :
    (∃ name, (⟨n, name⟩ : Sighting) ∈ brought g see m d) ↔
      ∃ k ∈ g.targets d.1, ∃ name, (⟨n, name⟩ : Sighting) ∈ see k := by
  rcases d with ⟨k | ⟨p, aliases⟩, i⟩
  · simp [brought, Graph.targets]
  · simp only [brought, exists_mem_relabelled, Finset.mem_biUnion, List.mem_toFinset,
      Graph.targets]
    refine ⟨?_, ?_⟩
    · rintro ⟨name, k, hk, h⟩
      exact ⟨k, hk, name, h⟩
    · rintro ⟨k, hk, name, h⟩
      exact ⟨name, k, hk, h⟩

lemma mem_seenIn {p : ProductId} {s : Sighting} :
    s ∈ seenIn g p ↔ ∃ n ∈ (g.productAt p).modules, s ∈ visible g n := by
  simp [seenIn]

lemma acc_of_isReached (hg : g.IsClosed) (hac : ¬ g.IsCyclic) {m : ModuleId}
    (hm : g.IsReached m) : Acc (fun a b => g.Leads b a) m :=
  let ⟨hw, hcomplete⟩ := (Walk.ofGraph_cycle hg).2 hac
  hw.ordered.acc (hcomplete m hm)

lemma eq_visibleStep_iff (hg : g.IsClosed) (hac : ¬ g.IsCyclic)
    {see : ModuleId → Finset Sighting} :
    (∀ m, g.IsReached m → see m = visibleStep g see m) ↔
      ∀ m, g.IsReached m → see m = visible g m := by
  refine ⟨fun h m hm => ?_, fun h m hm => ?_⟩
  · induction acc_of_isReached hg hac hm with
    | intro m _ ih =>
      rw [h m hm, visible_eq hg hac hm]
      exact visibleStep_congr fun n hn => ih n hn (hm.step hn)
  · rw [h m hm, visible_eq hg hac hm]
    exact visibleStep_congr fun n hn => (h n (hm.step hn)).symm

/-- **A module sees exactly the modules that it leads to.** -/
theorem exists_mem_visible_iff (hg : g.IsClosed) (hac : ¬ g.IsCyclic) {m : ModuleId}
    (hm : g.IsReached m) {n : ModuleId} :
    (∃ name, (⟨n, name⟩ : Sighting) ∈ visible g m) ↔ ReflTransGen g.Leads m n := by
  induction acc_of_isReached hg hac hm with
  | intro m _ ih =>
    refine ⟨?_, ?_⟩
    · rintro ⟨name, h⟩
      rcases (mem_visible_iff hg hac hm).1 h with h | ⟨i, d, hd, h⟩
      · obtain ⟨rfl, -⟩ := Sighting.mk.inj h
        exact .refl
      · -- What a dependency brings is seen by one of its targets.
        obtain ⟨k, hk, hn⟩ := exists_mem_brought.1 ⟨name, h⟩
        have hmk := Graph.leads_of_getElem? hd hk
        exact .head hmk ((ih k hmk (hm.step hmk)).1 hn)
    · intro h
      rcases ReflTransGen.cases_head h with rfl | ⟨k, hmk, hkn⟩
      · exact ⟨_, (mem_visible_iff hg hac hm).2 (.inl rfl)⟩
      · -- The first step of the way is a dependency, and the induction follows the rest.
        obtain ⟨d, hd, hk⟩ := Graph.leads_iff.1 hmk
        obtain ⟨i, hi⟩ := List.mem_iff_getElem?.1 hd
        have hn := (ih k hmk (hm.step hmk)).2 hkn
        obtain ⟨name, hname⟩ := exists_mem_brought (m := m) (d := (d, i)).2 ⟨k, hk, hn⟩
        exact ⟨name, (mem_visible_iff hg hac hm).2 (.inr ⟨i, d, hi, hname⟩)⟩

lemma isReached_of_mem_seenIn (hg : g.IsClosed) (hac : ¬ g.IsCyclic) {m : ModuleId}
    (hm : g.IsReached m) {p : ProductId} {rs : List AliasRequest}
    (hd : .product p rs ∈ (g.moduleAt m).dependencies) {s : Sighting} (hs : s ∈ seenIn g p) :
    g.IsReached s.module := by
  obtain ⟨n, hn, hs⟩ := mem_seenIn.1 hs
  have hreached : g.IsReached n := hm.step (.product hd hn)
  exact hreached.trans ((exists_mem_visible_iff hg hac hreached).1 ⟨s.name, hs⟩)

lemma exists_mem_visibleFromRoots_iff (hg : g.IsClosed) (hac : ¬ g.IsCyclic) {m : ModuleId} :
    (∃ name, (⟨m, name⟩ : Sighting) ∈ visibleFromRoots g) ↔ g.IsReached m := by
  simp only [visibleFromRoots, Finset.mem_biUnion, List.mem_toFinset]
  refine ⟨?_, ?_⟩
  · rintro ⟨name, r, hr, h⟩
    exact ⟨r, hr, (exists_mem_visible_iff hg hac (Graph.isReached_root hr)).1 ⟨name, h⟩⟩
  · rintro ⟨r, hr, h⟩
    obtain ⟨name, hname⟩ := (exists_mem_visible_iff hg hac (Graph.isReached_root hr)).2 h
    exact ⟨name, r, hr, hname⟩

end BuildPlanner.Alias
