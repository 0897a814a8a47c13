import BuildPlanner.Graph.Basic
import Mathlib.Data.Finset.Card
import Mathlib.Data.List.Chain
import Mathlib.Data.List.GetD
import Mathlib.Logic.Relation

/-!
The relation by which modules lead to each other, what is reached from the root modules, and
cycles of reached modules.

In a graph whose references are in range, everything that is reached is in range. So a path along
which no module comes twice is no longer than the table of modules, which is what bounds every
search.
-/

namespace BuildPlanner.Graph

open Relation (ReflTransGen TransGen)

/-- A module leads to the modules it depends on and to those of the products it depends on. -/
inductive Leads (g : Graph) (m : ModuleId) : ModuleId → Prop
  | module {n : ModuleId} (h : .module n ∈ (g.moduleAt m).dependencies) : Leads g m n
  | product {n : ModuleId} {p : ProductId} {aliases : List AliasRequest}
      (h : .product p aliases ∈ (g.moduleAt m).dependencies)
      (hn : n ∈ (g.productAt p).modules) : Leads g m n

/-- Some root module leads to the module, in any number of steps. -/
def IsReached (g : Graph) (m : ModuleId) : Prop :=
  ∃ r ∈ g.rootModules, ReflTransGen g.Leads r m

/-- Some module that is reached lies on a cycle. -/
def IsCyclic (g : Graph) : Prop := ∃ m, g.IsReached m ∧ TransGen g.Leads m m

/-- A list of reached modules, each of which leads to the next, that ends where it begins. -/
structure IsLoop (g : Graph) (ms : List ModuleId) : Prop where
  chain : ms.IsChain g.Leads
  closed : ms.head? = ms.getLast?
  proper : 2 ≤ ms.length
  reached : ∀ m ∈ ms, g.IsReached m

variable {g : Graph}

lemma leads_iff {m n : ModuleId} :
    g.Leads m n ↔ ∃ d ∈ (g.moduleAt m).dependencies, n ∈ g.targets d := by
  refine ⟨?_, ?_⟩
  · rintro (h | ⟨h, hn⟩)
    · exact ⟨_, h, by simp [targets]⟩
    · exact ⟨_, h, hn⟩
  · rintro ⟨d, hd, hn⟩
    cases d with
    | module k =>
      obtain rfl : n = k := by simpa [targets] using hn
      exact .module hd
    | product p aliases => exact .product hd hn

lemma leads_of_getElem? {m n : ModuleId} {i : Nat} {d : Dependency}
    (hd : (g.moduleAt m).dependencies[i]? = some d) (hn : n ∈ g.targets d) : g.Leads m n :=
  leads_iff.2 ⟨d, List.mem_of_getElem? hd, hn⟩

lemma leads_iff_getElem? {m n : ModuleId} : g.Leads m n ↔
    ∃ (i : Nat) (d : Dependency), (g.moduleAt m).dependencies[i]? = some d ∧ n ∈ g.targets d := by
  refine ⟨fun h => ?_, fun ⟨_, _, hd, hn⟩ => leads_of_getElem? hd hn⟩
  obtain ⟨d, hd, hn⟩ := leads_iff.1 h
  obtain ⟨i, hi⟩ := List.mem_iff_getElem?.1 hd
  exact ⟨i, d, hi, hn⟩

/-! ### Reached modules -/

lemma isReached_root {m : ModuleId} (h : m ∈ g.rootModules) : g.IsReached m := ⟨m, h, .refl⟩

lemma IsReached.step {m n : ModuleId} (h : g.IsReached m) (hn : g.Leads m n) :
    g.IsReached n := by
  obtain ⟨r, hr, hm⟩ := h
  exact ⟨r, hr, hm.tail hn⟩

lemma IsReached.trans {m n : ModuleId} (h : g.IsReached m) (hn : ReflTransGen g.Leads m n) :
    g.IsReached n := by
  obtain ⟨r, hr, hm⟩ := h
  exact ⟨r, hr, hm.trans hn⟩

lemma IsReached.induction {P : ModuleId → Prop} (roots : ∀ r ∈ g.rootModules, P r)
    (step : ∀ m n, P m → g.Leads m n → P n) {m : ModuleId} (h : g.IsReached m) : P m := by
  obtain ⟨r, hr, hm⟩ := h
  induction hm with
  | refl => exact roots r hr
  | tail _ hn ih => exact step _ _ ih hn

lemma IsLoop.isCyclic {ms : List ModuleId} (h : g.IsLoop ms) : g.IsCyclic := by
  obtain ⟨hchain, hclosed, hproper, hreached⟩ := h
  match ms, hproper with
  | m :: n :: rest, _ =>
    have hlast : (m :: n :: rest).getLast (by simp) = m := by
      have : (m :: n :: rest).getLast? = some m := hclosed.symm
      exact Option.some.inj (by rw [← List.getLast?_eq_some_getLast]; exact this)
    have hmn : g.Leads m n := hchain.rel
    have hnm : ReflTransGen g.Leads n m := by
      have := List.IsChain.tail hchain
      refine List.relationReflTransGen_of_exists_isChain_cons rest this ?_
      rwa [List.getLast_cons (by simp)] at hlast
    exact ⟨m, hreached m (by simp), .head' hmn hnm⟩

/-! ### References in range -/

lemma moduleAt_of_length_le {m : ModuleId} (h : g.modules.length ≤ m) : g.moduleAt m = {} := by
  simp [moduleAt, List.getD_eq_getElem?_getD, List.getElem?_eq_none h]

lemma moduleAt_mem {m : ModuleId} (h : m < g.modules.length) : g.moduleAt m ∈ g.modules := by
  rw [moduleAt, List.getD_eq_getElem _ _ h]
  exact List.getElem_mem h

lemma lt_length_of_mem_dependencies {m : ModuleId} {d : Dependency}
    (h : d ∈ (g.moduleAt m).dependencies) : m < g.modules.length := by
  by_contra hm
  rw [moduleAt_of_length_le (not_lt.1 hm)] at h
  simp at h

lemma productAt_mem {p : ProductId} (h : p < g.products.length) : g.productAt p ∈ g.products := by
  rw [productAt, List.getD_eq_getElem _ _ h]
  exact List.getElem_mem h

lemma productAt_of_length_le {p : ProductId} (h : g.products.length ≤ p) :
    g.productAt p = {} := by
  simp [productAt, List.getD_eq_getElem?_getD, List.getElem?_eq_none h]

lemma mem_iff_getD {α : Type} {l : List α} {x : α} (a : α) :
    x ∈ l ↔ ∃ i < l.length, l.getD i a = x := by
  rw [List.mem_iff_getElem]
  refine exists_congr fun i => ⟨?_, ?_⟩
  · rintro ⟨hi, rfl⟩
    exact ⟨hi, List.getD_eq_getElem _ _ hi⟩
  · rintro ⟨hi, rfl⟩
    exact ⟨hi, (List.getD_eq_getElem _ _ hi).symm⟩

lemma mem_packages_iff {x : Package} :
    x ∈ g.packages ↔ ∃ p < g.packages.length, g.packageAt p = x :=
  mem_iff_getD _

lemma mem_modules_iff {x : Module} :
    x ∈ g.modules ↔ ∃ m < g.modules.length, g.moduleAt m = x :=
  mem_iff_getD _

lemma mem_rootModules_iff {m : ModuleId} : m ∈ g.rootModules ↔
    ∃ p < g.packages.length, (g.packageAt p).isRoot = true ∧ m ∈ (g.packageAt p).modules := by
  simp only [rootModules, List.mem_flatMap, List.mem_filter, mem_packages_iff]
  grind

lemma mem_rootProducts_iff {q : ProductId} : q ∈ g.rootProducts ↔
    ∃ p < g.packages.length, (g.packageAt p).isRoot = true ∧ q ∈ (g.packageAt p).products := by
  simp only [rootProducts, List.mem_flatMap, List.mem_filter, mem_packages_iff]
  grind

lemma danglingFault?_product {p : ProductId} {aliases : List AliasRequest} :
    g.danglingFault? (.product p aliases) = none ↔ p < g.products.length := by
  simp [danglingFault?]

lemma danglingFault?_module {m : ModuleId} :
    g.danglingFault? (.module m) = none ↔ m < g.modules.length := by
  simp [danglingFault?]

namespace IsClosed

lemma dependency (h : g.IsClosed) {m : ModuleId} {d : Dependency}
    (hd : d ∈ (g.moduleAt m).dependencies) : g.danglingFault? d = none :=
  (h.2.1 _ (moduleAt_mem (lt_length_of_mem_dependencies hd))).2 d hd

lemma product_lt (h : g.IsClosed) {m : ModuleId} {p : ProductId} {aliases : List AliasRequest}
    (hd : .product p aliases ∈ (g.moduleAt m).dependencies) : p < g.products.length :=
  danglingFault?_product.1 (h.dependency hd)

lemma module_lt_of_mem_product (h : g.IsClosed) {p : ProductId} {m : ModuleId}
    (hm : m ∈ (g.productAt p).modules) : m < g.modules.length := by
  by_cases hp : p < g.products.length
  · exact (h.2.2 _ (productAt_mem hp)).2 m hm
  · simp [productAt_of_length_le (not_lt.1 hp)] at hm

lemma leads_lt (h : g.IsClosed) {m n : ModuleId} (hn : g.Leads m n) : n < g.modules.length := by
  rcases hn with hd | ⟨_, hn⟩
  · exact danglingFault?_module.1 (h.dependency hd)
  · exact h.module_lt_of_mem_product hn

lemma rootModule_lt (h : g.IsClosed) {m : ModuleId} (hm : m ∈ g.rootModules) :
    m < g.modules.length := by
  obtain ⟨p, hp, hm⟩ := List.mem_flatMap.1 hm
  exact (h.1 p (List.mem_of_mem_filter hp)).1 m hm

lemma rootProduct_lt (h : g.IsClosed) {p : ProductId} (hp : p ∈ g.rootProducts) :
    p < g.products.length := by
  obtain ⟨k, hk, hp⟩ := List.mem_flatMap.1 hp
  exact (h.1 k (List.mem_of_mem_filter hk)).2 p hp

lemma reached_lt (h : g.IsClosed) {m : ModuleId} (hm : g.IsReached m) : m < g.modules.length :=
  hm.induction (fun _ => h.rootModule_lt) fun _ _ _ => h.leads_lt

end IsClosed

/-! ### Paths without repetition -/

/-- A list of different numbers below a bound is no longer than the bound. -/
lemma length_le_of_nodup {l : List Nat} {n : Nat} (h : l.Nodup) (hl : ∀ m ∈ l, m < n) :
    l.length ≤ n := by
  rw [← List.toFinset_card_of_nodup h]
  calc l.toFinset.card ≤ (Finset.range n).card :=
        Finset.card_le_card fun m hm => Finset.mem_range.2 (hl m (List.mem_toFinset.1 hm))
    _ = n := Finset.card_range n

lemma nodup_of_isChain (h : ¬ g.IsCyclic) {ms : List ModuleId} (hms : ms.IsChain g.Leads)
    (hr : ∀ m ∈ ms, g.IsReached m) : ms.Nodup := by
  have htrans : ms.Pairwise (TransGen g.Leads) :=
    (hms.imp fun _ _ => TransGen.single).pairwise
  refine htrans.imp_of_mem fun {m n} hm _ hmn => ?_
  rintro rfl
  exact h ⟨m, hr m hm, hmn⟩

end BuildPlanner.Graph
