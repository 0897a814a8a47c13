import BuildPlanner.Build.Reach
import BuildPlanner.Proofs.Graph.Leads

/-!
What the search for builds finds.

A search from `x` adds elements that `x` leads to, and with every element it adds those that the
element leads to directly. The fuel never runs out since each step inwards adds another element of
a finite set. Started from nothing, the search therefore finds exactly what the roots lead to.
-/

namespace BuildPlanner.Build

open Relation (ReflTransGen)

/-! ### Search in general -/

section Explore

variable {α : Type} {next : α → List α}

/-- What a search from the elements `xs` makes of those already seen. -/
structure Explored (next : α → List α) (seen xs found : List α) : Prop where
  kept : ∀ y ∈ seen, y ∈ found
  added : ∀ x ∈ xs, x ∈ found
  sound : ∀ y ∈ found, y ∈ seen ∨ ∃ x ∈ xs, ReflTransGen (fun a b => b ∈ next a) x y
  closed : ∀ y ∈ found, y ∈ seen ∨ ∀ z ∈ next y, z ∈ found

namespace Explored

lemma refl (seen : List α) : Explored next seen [] seen :=
  ⟨fun _ h => h, by simp, fun _ h => .inl h, fun _ h => .inl h⟩

lemma of_mem {seen : List α} {x : α} (h : x ∈ seen) : Explored next seen [x] seen :=
  ⟨fun _ h => h, by simpa using h, fun _ h => .inl h, fun _ h => .inl h⟩

lemma trans {seen found found' xs ys : List α} (h : Explored next seen xs found)
    (h' : Explored next found ys found') : Explored next seen (xs ++ ys) found' := by
  refine ⟨fun y hy => h'.kept y (h.kept y hy), fun x hx => ?_, fun y hy => ?_, fun y hy => ?_⟩
  · rcases List.mem_append.1 hx with hx | hx
    · exact h'.kept x (h.added x hx)
    · exact h'.added x hx
  · -- What is found comes from the second search, from the first, or was seen.
    rcases h'.sound y hy with hy | ⟨x, hx, hxy⟩
    · rcases h.sound y hy with hy | ⟨x, hx, hxy⟩
      · exact .inl hy
      · exact .inr ⟨x, by simp [hx], hxy⟩
    · exact .inr ⟨x, by simp [hx], hxy⟩
  · -- What the first search found leads to what both have.
    rcases h'.closed y hy with hy | hy
    · rcases h.closed y hy with hy | hy
      · exact .inl hy
      · exact .inr fun z hz => h'.kept z (hy z hz)
    · exact .inr hy

lemma step {seen found : List α} {x : α} (h : Explored next (x :: seen) (next x) found) :
    Explored next seen [x] found := by
  have hx : x ∈ found := h.kept x (by simp)
  refine ⟨fun y hy => h.kept y (by simp [hy]), by simpa using hx, fun y hy => ?_, fun y hy => ?_⟩
  · -- `x` is reached from itself, and the others through one of its successors.
    rcases h.sound y hy with hy | ⟨z, hz, hzy⟩
    · rcases List.mem_cons.1 hy with rfl | hy
      · exact .inr ⟨y, by simp, .refl⟩
      · exact .inl hy
    · exact .inr ⟨x, by simp, .head hz hzy⟩
  · rcases h.closed y hy with hy | hy
    · rcases List.mem_cons.1 hy with rfl | hy
      · exact .inr h.added
      · exact .inl hy
    · exact .inr hy

lemma congr {seen seen' found xs : List α} (h : Explored next seen xs found)
    (hseen : ∀ y, y ∈ seen ↔ y ∈ seen') : Explored next seen' xs found :=
  ⟨fun y hy => h.kept y ((hseen y).2 hy), h.added, fun y hy => (h.sound y hy).imp_left (hseen y).1,
    fun y hy => (h.closed y hy).imp_left (hseen y).1⟩

lemma mem_iff {xs found : List α} (h : Explored next [] xs found) {y : α} :
    y ∈ found ↔ ∃ x ∈ xs, ReflTransGen (fun a b => b ∈ next a) x y := by
  refine ⟨fun hy => (h.sound y hy).resolve_left List.not_mem_nil, ?_⟩
  rintro ⟨x, hx, hxy⟩
  induction hxy with
  | refl => exact h.added x hx
  | tail _ hz ih => exact (h.closed _ ih).resolve_left List.not_mem_nil _ hz

end Explored

variable [DecidableEq α] {all : Finset α}

lemma card_sdiff_mono {seen found : List α} (h : ∀ y ∈ seen, y ∈ found) :
    (all \ found.toFinset).card ≤ (all \ seen.toFinset).card := by
  refine Finset.card_le_card (Finset.sdiff_subset_sdiff subset_rfl fun y hy => ?_)
  exact List.mem_toFinset.2 (h y (List.mem_toFinset.1 hy))

/-- A new element leaves fewer unseen. -/
lemma card_sdiff_cons {seen : List α} {x : α} (hx : x ∈ all) (hnew : x ∉ seen) :
    (all \ (x :: seen).toFinset).card < (all \ seen.toFinset).card := by
  refine Finset.card_lt_card (Finset.ssubset_iff_of_subset ?_ |>.2 ⟨x, ?_, ?_⟩)
  · exact Finset.sdiff_subset_sdiff subset_rfl fun y hy => by
      simp only [List.mem_toFinset] at hy ⊢
      exact List.mem_cons_of_mem _ hy
  · simp [hx, hnew]
  · simp

lemma explored_foldl {fuel : Nat}
    (hstep : ∀ seen x, x ∈ all → (all \ seen.toFinset).card ≤ fuel →
      Explored next seen [x] (explore next fuel seen x))
    {xs : List α} (hxs : ∀ x ∈ xs, x ∈ all) {seen : List α}
    (hfuel : (all \ seen.toFinset).card ≤ fuel) :
    Explored next seen xs (xs.foldl (explore next fuel) seen) := by
  induction xs generalizing seen with
  | nil => exact .refl seen
  | cons x xs ih =>
    have hfirst := hstep seen x (hxs x (by simp)) hfuel
    have hrest := ih (fun y hy => hxs y (by simp [hy]))
      ((card_sdiff_mono hfirst.kept).trans hfuel)
    exact hfirst.trans hrest

/-- With fuel for every unseen element, a search adds all that its element leads to. -/
lemma explored_explore (hnext : ∀ x ∈ all, ∀ y ∈ next x, y ∈ all) (fuel : Nat) :
    ∀ seen x, x ∈ all → (all \ seen.toFinset).card ≤ fuel →
      Explored next seen [x] (explore next fuel seen x) := by
  induction fuel with
  | zero =>
    intro seen x hx hfuel
    have hempty : all \ seen.toFinset = ∅ := Finset.card_eq_zero.1 (by omega)
    have hmem : x ∈ seen := by simpa using Finset.sdiff_eq_empty_iff_subset.1 hempty hx
    exact .of_mem hmem
  | succ fuel ih =>
    intro seen x hx hfuel
    unfold explore
    split
    · next hmem => exact .of_mem hmem
    · next hmem =>
      have hless := card_sdiff_cons hx hmem
      exact .step (explored_foldl ih (hnext x hx) (by omega))

/-- **A search finds exactly what its roots lead to.** -/
theorem mem_foldl_explore (hnext : ∀ x ∈ all, ∀ y ∈ next x, y ∈ all) {roots : List α}
    (hroots : ∀ r ∈ roots, r ∈ all) {fuel : Nat} (hfuel : all.card ≤ fuel) {y : α} :
    y ∈ roots.foldl (explore next fuel) [] ↔
      ∃ r ∈ roots, ReflTransGen (fun a b => b ∈ next a) r y :=
  (explored_foldl (explored_explore hnext fuel) hroots (by simpa using hfuel)).mem_iff

end Explore

end BuildPlanner.Build

namespace BuildPlanner.Graph

open Build
open Relation (ReflTransGen)

variable {g : Graph}

/-! ### The search for builds -/

lemma mem_moduleKeys {k : ModuleKey} : k ∈ g.moduleKeys ↔ k.module < g.modules.length := by
  obtain ⟨m, d⟩ := k
  cases d <;> simp [moduleKeys, moduleIds, Destination.all]

lemma mem_productKeys {k : ProductKey} : k ∈ g.productKeys ↔ k.product < g.products.length := by
  obtain ⟨p, d⟩ := k
  cases d <;> simp [productKeys, productIds, Destination.all]

def nodes (g : Graph) : Finset Node :=
  (g.moduleKeys.map Node.module ++ g.productKeys.map Node.product).toFinset

lemma module_mem_nodes {k : ModuleKey} : .module k ∈ g.nodes ↔ k.module < g.modules.length := by
  simp [nodes, mem_moduleKeys]

lemma product_mem_nodes {k : ProductKey} :
    .product k ∈ g.nodes ↔ k.product < g.products.length := by
  simp [nodes, mem_productKeys]

lemma card_nodes_le (g : Graph) : g.nodes.card ≤ g.moduleKeys.length + g.productKeys.length := by
  calc g.nodes.card ≤ (g.moduleKeys.map Node.module ++ g.productKeys.map Node.product).length :=
        List.toFinset_card_le _
    _ = g.moduleKeys.length + g.productKeys.length := by simp

lemma IsClosed.successors_mem_nodes (h : g.IsClosed) {x y : Node} (hy : y ∈ g.successors x) :
    y ∈ g.nodes := by
  cases x with
  | module k =>
    obtain ⟨d, hd, rfl⟩ := List.mem_map.1 hy
    cases d with
    | module n => exact module_mem_nodes.2 (danglingFault?_module.1 (h.dependency hd))
    | product p aliases => exact product_mem_nodes.2 (h.product_lt hd)
  | product k =>
    obtain ⟨m, hm, rfl⟩ := List.mem_map.1 hy
    exact module_mem_nodes.2 (h.module_lt_of_mem_product hm)

lemma IsClosed.rootNodes_mem_nodes (h : g.IsClosed) {x : Node} (hx : x ∈ g.rootNodes) :
    x ∈ g.nodes := by
  rcases List.mem_append.1 hx with hx | hx
  · obtain ⟨p, hp, rfl⟩ := List.mem_map.1 hx
    exact product_mem_nodes.2 (h.rootProduct_lt hp)
  · obtain ⟨m, hm, rfl⟩ := List.mem_map.1 hx
    exact module_mem_nodes.2 (h.rootModule_lt hm)

lemma mem_reachedNodes (h : g.IsClosed) {y : Node} :
    y ∈ g.reachedNodes ↔ ∃ r ∈ g.rootNodes, ReflTransGen (fun a b => b ∈ g.successors a) r y :=
  mem_foldl_explore (fun _ _ _ => h.successors_mem_nodes) (fun _ => h.rootNodes_mem_nodes)
    g.card_nodes_le

lemma mem_nodes_of_mem_reachedNodes (h : g.IsClosed) {y : Node} (hy : y ∈ g.reachedNodes) :
    y ∈ g.nodes := by
  obtain ⟨r, hr, hry⟩ := (mem_reachedNodes h).1 hy
  rcases ReflTransGen.cases_tail hry with rfl | ⟨x, -, hx⟩
  · exact h.rootNodes_mem_nodes hr
  · exact h.successors_mem_nodes hx

lemma mem_reachedModules (h : g.IsClosed) {k : ModuleKey} :
    k ∈ g.reachedModules ↔ .module k ∈ g.reachedNodes := by
  simp only [reachedModules, List.mem_filter, List.contains_iff_mem, mem_moduleKeys,
    and_iff_right_iff_imp]
  exact fun hk => module_mem_nodes.1 (mem_nodes_of_mem_reachedNodes h hk)

lemma mem_reachedProducts (h : g.IsClosed) {k : ProductKey} :
    k ∈ g.reachedProducts ↔ .product k ∈ g.reachedNodes := by
  simp only [reachedProducts, List.mem_filter, List.contains_iff_mem, mem_productKeys,
    and_iff_right_iff_imp]
  exact fun hk => product_mem_nodes.1 (mem_nodes_of_mem_reachedNodes h hk)

end BuildPlanner.Graph
