import BuildPlanner.Proofs.Build.Trail

/-!
Everything that a build depends on, as the preorder of a walk that skips nothing.

The list of what a build depends on is made by a walk that goes no further from a build that was met
before. Where no cycle is reached nothing is lost by that: a build that was met before is not on the
path of the walk, so the walk has been through everything behind it (`Closure.Follows`). The list is
therefore what a walk that goes on from every build would list, less what that lists again.
-/

namespace BuildPlanner.Build

open BuildPlanner.Graph
open Relation (ReflTransGen TransGen)

variable {g : Graph} {target host : Parameters} {plan : Plan}

/-! ### Definitions -/

/-- All that the nodes `xs` in turn are and lead to, in preorder, however often that repeats. -/
inductive InPreorder (g : Graph) : (xs ys : List Node) → Prop
  | nil : InPreorder g [] []
  | cons {x : Node} {xs inner ys : List Node} (hinner : InPreorder g (g.successors x) inner)
      (hrest : InPreorder g xs ys) : InPreorder g (x :: xs) (x :: (inner ++ ys))

def PlannedDependency.node : PlannedDependency → Node
  | .product k _ => .product k
  | .module m => .module m.key

/-- A dependency comes with what the plan has for it. -/
def PlannedDependency.IsOf (plan : Plan) : PlannedDependency → Prop
  | .product k p => p = plan.product? k
  | .module m => plan.module? m.key = some m

/-- A walk from `start` that would have listed `walked` has kept each node once. It has been through
all that is behind the builds that were met, save for those on its path. -/
structure Closure.Follows (g : Graph) (plan : Plan) (start : ModuleKey) (path : List ModuleKey)
    (c : Closure) (walked : List Node) : Prop where
  listed : c.found.map (·.node) = walked.eraseDups
  modules : ∀ k, k ∈ c.modules ↔ k = start ∨ .module k ∈ walked
  products : ∀ q, q ∈ c.products ↔ .product q ∈ walked
  behind : ∀ k ∈ c.modules, k ∉ path →
    ∃ ys, InPreorder g (g.successors (.module k)) ys ∧ ys ⊆ walked
  planned : ∀ x ∈ c.found, x.IsOf plan

/-! ### Lists of dependencies -/

lemma module_mem_iff {ds : List PlannedDependency} {k : ModuleKey} :
    (∃ x, .module x ∈ ds ∧ x.key = k) ↔ ∃ d ∈ ds, d.node = .module k := by
  refine ⟨fun ⟨x, hx, hk⟩ => ⟨_, hx, congrArg Node.module hk⟩, ?_⟩
  rintro ⟨_ | x, hx, hk⟩
  · cases hk
  · exact ⟨x, hx, Node.module.inj hk⟩

lemma product_mem_iff {ds : List PlannedDependency} (hds : ∀ x ∈ ds, x.IsOf plan)
    {q : ProductKey} {p : Option PlannedProduct} :
    .product q p ∈ ds ↔ p = plan.product? q ∧ ∃ d ∈ ds, d.node = .product q := by
  refine ⟨fun h => ⟨hds _ h, _, h, rfl⟩, ?_⟩
  rintro ⟨rfl, ⟨k, p⟩ | x, hd, hq⟩
  · obtain rfl := Node.product.inj hq
    obtain rfl : p = plan.product? k := hds _ hd
    exact hd
  · cases hq

/-! ### First occurrences -/

section EraseDups

variable {α : Type} [BEq α] [LawfulBEq α]

lemma eraseDups_append_of_subset {xs ys : List α} (h : ys ⊆ xs) :
    (xs ++ ys).eraseDups = xs.eraseDups := by
  have hnone : ys.removeAll xs = [] := List.filter_eq_nil_iff.2 fun y hy => by simpa using h hy
  rw [List.eraseDups_append, hnone, List.eraseDups_nil, List.append_nil]

lemma eraseDups_concat_of_notMem {xs : List α} {y : α} (h : y ∉ xs) :
    (xs ++ [y]).eraseDups = xs.eraseDups ++ [y] := by
  have hall : [y].removeAll xs = [y] := List.filter_eq_self.2 (by simpa using h)
  rw [List.eraseDups_append, hall]
  simp [List.eraseDups_cons]

lemma nodup_eraseDups (xs : List α) : xs.eraseDups.Nodup := by
  induction xs using List.reverseRecOn with
  | nil => simp
  | append_singleton xs y ih =>
    by_cases hy : y ∈ xs
    · rw [eraseDups_append_of_subset (by simpa using hy)]
      exact ih
    · rw [eraseDups_concat_of_notMem hy, ← List.concat_eq_append, List.nodup_concat]
      exact ⟨fun h => hy (List.mem_eraseDups.1 h), ih⟩

end EraseDups

/-! ### Preorder -/

namespace InPreorder

variable {xs xs' ys ys' : List Node}

lemma append (h : InPreorder g xs ys) (h' : InPreorder g xs' ys') :
    InPreorder g (xs ++ xs') (ys ++ ys') := by
  induction h with
  | nil => exact h'
  | cons hinner _ _ ih =>
    rw [List.cons_append, List.cons_append, List.append_assoc]
    exact .cons hinner ih

lemma singleton {x : Node} (h : InPreorder g (g.successors x) ys) :
    InPreorder g [x] (x :: ys) := by
  simpa using h.cons .nil

lemma eq (h : InPreorder g xs ys) (h' : InPreorder g xs ys') : ys = ys' := by
  induction h generalizing ys' with
  | nil =>
    cases h'
    rfl
  | cons _ _ ihinner ih =>
    cases h' with
    | cons hinner hrest => rw [ihinner hinner, ih hrest]

lemma mem_iff (h : InPreorder g xs ys) {y : Node} :
    y ∈ ys ↔ ∃ x ∈ xs, ReflTransGen (fun x y => y ∈ g.successors x) x y := by
  induction h with
  | nil => simp
  | @cons x xs inner ys _ _ ihinner ih =>
    have hx : ReflTransGen (fun x y => y ∈ g.successors x) x y ↔
        x = y ∨ ∃ z ∈ g.successors x, ReflTransGen (fun x y => y ∈ g.successors x) z y :=
      ReflTransGen.cases_head_iff
    rw [List.mem_cons, List.mem_append, ihinner, ih, List.exists_mem_cons_iff, hx, or_assoc,
      eq_comm]

lemma mem_iff_transGen {x y : Node} (h : InPreorder g (g.successors x) ys) :
    y ∈ ys ↔ TransGen (fun x y => y ∈ g.successors x) x y := by
  rw [h.mem_iff, TransGen.head'_iff]

/-- The nodes of a list without repetitions are those of the preorder. -/
lemma exists_node_iff {x y : Node} (h : InPreorder g (g.successors x) ys)
    {ds : List PlannedDependency} (hlisted : ds.map (·.node) = ys.eraseDups) :
    (∃ d ∈ ds, d.node = y) ↔ TransGen (fun x y => y ∈ g.successors x) x y := by
  rw [← h.mem_iff_transGen, ← List.mem_eraseDups, ← hlisted, List.mem_map]

lemma exists_module_iff {k l : ModuleKey} (h : InPreorder g (g.successors (.module k)) ys)
    {ds : List PlannedDependency} (hlisted : ds.map (·.node) = ys.eraseDups) :
    (∃ x, .module x ∈ ds ∧ x.key = l) ↔ TransGen (fun k l => l ∈ g.childKeys k) k l :=
  module_mem_iff.trans ((h.exists_node_iff hlisted).trans transGen_successors_iff)

end InPreorder

/-! ### What a walk keeps -/

namespace Closure.Follows

variable {start : ModuleKey} {path : List ModuleKey} {c : Closure} {walked ys : List Node}

lemma again (h : c.Follows g plan start path walked) (hys : ys ⊆ walked) :
    c.Follows g plan start path (walked ++ ys) := by
  have hmem (y : Node) : y ∈ walked ++ ys ↔ y ∈ walked := by
    rw [List.mem_append, or_iff_left_of_imp fun hy => hys hy]
  refine ⟨h.listed.trans (eraseDups_append_of_subset hys).symm, ?_, ?_, ?_, h.planned⟩
  · simpa only [hmem] using h.modules
  · simpa only [hmem] using h.products
  · intro k hk hpath
    obtain ⟨zs, hzs, hsubset⟩ := h.behind k hk hpath
    exact ⟨zs, hzs, fun z hz => List.mem_append_left _ (hsubset hz)⟩

lemma product (h : c.Follows g plan start path walked) (q : ProductKey) :
    (plan.closeProduct c q).Follows g plan start path (walked ++ [.product q]) := by
  unfold Plan.closeProduct
  split
  · next hq => exact h.again (by simpa using (h.products q).1 hq)
  · next hq =>
    have hnew : .product q ∉ walked := fun hmem => hq ((h.products q).2 hmem)
    refine ⟨?_, ?_, ?_, ?_, ?_⟩
    · rw [eraseDups_concat_of_notMem hnew, ← h.listed]
      simp [PlannedDependency.node]
    · simpa using h.modules
    · simp [h.products, or_comm]
    · intro k hk hpath
      obtain ⟨zs, hzs, hsubset⟩ := h.behind k hk hpath
      exact ⟨zs, hzs, fun z hz => List.mem_append_left _ (hsubset hz)⟩
    · simpa [or_imp, forall_and, PlannedDependency.IsOf] using h.planned

lemma enter (h : c.Follows g plan start path walked) {m : PlannedModule}
    (hm : plan.module? m.key = some m) (hnew : m.key ∉ c.modules) :
    Closure.Follows g plan start (m.key :: path)
      { c with modules := m.key :: c.modules, found := c.found ++ [.module m] }
      (walked ++ [.module m.key]) := by
  have hnotMem : .module m.key ∉ walked := fun hmem => hnew ((h.modules _).2 (.inr hmem))
  refine ⟨?_, ?_, ?_, ?_, ?_⟩
  · rw [eraseDups_concat_of_notMem hnotMem, ← h.listed]
    simp [PlannedDependency.node]
  · intro k
    simp only [List.mem_cons, h.modules k, List.mem_append, Node.module.injEq, List.not_mem_nil,
      or_false]
    rw [or_comm, or_assoc]
  · simpa using h.products
  · intro k hk hpath
    obtain ⟨hne, hpath⟩ := not_or.1 (mt List.mem_cons.2 hpath)
    obtain ⟨zs, hzs, hsubset⟩ := h.behind k ((List.mem_cons.1 hk).resolve_left hne) hpath
    exact ⟨zs, hzs, fun z hz => List.mem_append_left _ (hsubset hz)⟩
  · simpa [or_imp, forall_and, PlannedDependency.IsOf, hm] using h.planned

lemma leave {k : ModuleKey} (h : c.Follows g plan start (k :: path) walked)
    (hys : InPreorder g (g.successors (.module k)) ys) (hsubset : ys ⊆ walked) :
    c.Follows g plan start path walked := by
  refine ⟨h.listed, h.modules, h.products, fun l hl hpath => ?_, h.planned⟩
  by_cases hlk : l = k
  · exact hlk ▸ ⟨ys, hys, hsubset⟩
  · exact h.behind l hl (by simp [hlk, hpath])

end Closure.Follows

/-- A walk through the nodes `xs` has listed their preorder. -/
def Closed (g : Graph) (plan : Plan) (start : ModuleKey) (path : List ModuleKey) (c : Closure)
    (xs : List Node) (c' : Closure) : Prop :=
  ∀ walked, c.Follows g plan start path walked →
    ∃ ys, InPreorder g xs ys ∧ c'.Follows g plan start path (walked ++ ys)

namespace Closed

variable {start : ModuleKey} {path : List ModuleKey} {c c' c'' : Closure} {xs xs' : List Node}

lemma refl (c : Closure) : Closed g plan start path c [] c :=
  fun _ h => ⟨[], .nil, by simpa using h⟩

lemma trans (h : Closed g plan start path c xs c') (h' : Closed g plan start path c' xs' c'') :
    Closed g plan start path c (xs ++ xs') c'' := by
  intro walked hfollows
  obtain ⟨ys, hys, hfollows⟩ := h walked hfollows
  obtain ⟨ys', hys', hfollows⟩ := h' _ hfollows
  exact ⟨ys ++ ys', hys.append hys', by rwa [← List.append_assoc]⟩

lemma product {q : ProductKey}
    (h : Closed g plan start path (plan.closeProduct c q) (g.successors (.product q)) c') :
    Closed g plan start path c [.product q] c' := by
  intro walked hfollows
  obtain ⟨ys, hys, hfollows⟩ := h _ (hfollows.product q)
  exact ⟨.product q :: ys, hys.singleton, by simpa using hfollows⟩

lemma seen {k : ModuleKey} (hk : k ∈ c.modules) (hpath : k ∉ path) (hstart : start ∈ path) :
    Closed g plan start path c [.module k] c := by
  intro walked hfollows
  obtain ⟨ys, hys, hsubset⟩ := hfollows.behind k hk hpath
  have hlisted : .module k ∈ walked :=
    ((hfollows.modules k).1 hk).resolve_left (ne_of_mem_of_not_mem hstart hpath).symm
  exact ⟨.module k :: ys, hys.singleton, hfollows.again (List.cons_subset.2 ⟨hlisted, hsubset⟩)⟩

/-- A new build is walked through with what it depends on, while it is on the path. -/
lemma new {m : PlannedModule} (hm : plan.module? m.key = some m) (hnew : m.key ∉ c.modules)
    (h : Closed g plan start (m.key :: path)
      { c with modules := m.key :: c.modules, found := c.found ++ [.module m] }
      (g.successors (.module m.key)) c') : Closed g plan start path c [.module m.key] c' := by
  intro walked hfollows
  obtain ⟨ys, hys, hfollows⟩ := h _ (hfollows.enter hm hnew)
  refine ⟨.module m.key :: ys, hys.singleton, ?_⟩
  rw [← List.append_cons] at hfollows
  exact hfollows.leave hys fun y hy => by simp [hy]

end Closed

/-! ### The walk -/

section Walk

variable {expand : Closure → ModuleKey → Except Fault Closure} {start : ModuleKey}
  {path : List ModuleKey}

lemma exists_closeModule (hplan : plan.Covers g) (hstart : start ∈ path) {k : ModuleKey}
    (htrail : Trail g (k :: path))
    (hexpand : ∀ c, ∃ c', expand c k = .ok c' ∧
      Closed g plan start (k :: path) c (g.successors (.module k)) c') (c : Closure) :
    ∃ c', plan.closeModule expand c (.ok k) = .ok c' ∧
      Closed g plan start path c [.module k] c' := by
  by_cases hmem : k ∈ c.modules
  · have hpath : k ∉ path := (List.nodup_cons.1 (htrail.nodup hplan.acyclic)).1
    exact ⟨c, by simp [Plan.closeModule, hmem], .seen hmem hpath hstart⟩
  · obtain ⟨m, hm⟩ := Option.isSome_iff_exists.1 ((hplan.planned k).2 (htrail.planned k (by simp)))
    obtain rfl := Plan.key_of_module? hm
    obtain ⟨c', hc', hclosed⟩ := hexpand
      { c with modules := m.key :: c.modules, found := c.found ++ [.module m] }
    exact ⟨c', by simp [Plan.closeModule, hmem, Plan.planned, hm, hc'], .new hm hmem hclosed⟩

lemma exists_closeSlots (hg : g.IsClosed) {d : Destination} {x : Dependency}
    (hx : g.danglingFault? x = none)
    (hmodules : ∀ k ∈ g.dependencyKeys d x, ∀ c, ∃ c',
      plan.closeModule expand c (.ok k) = .ok c' ∧ Closed g plan start path c [.module k] c')
    (c : Closure) :
    ∃ c', (do
        let c ← plan.closeDependency g d c x
        (dependencySlots g d x).foldlM (plan.closeModule expand) c) = .ok c' ∧
      Closed g plan start path c [g.dependencyNode d x] c' := by
  have hall (c : Closure) : ∃ c',
      (dependencySlots g d x).foldlM (plan.closeModule expand) c = .ok c' ∧
        Closed g plan start path c ((g.dependencyKeys d x).map .module) c' := by
    rw [hg.dependencySlots_eq hx, List.foldlM_map, List.map_eq_flatMap]
    exact Fault.exists_foldlM .refl .trans (fun _ _ => trivial)
      (fun k hk c (_ : True) => hmodules k hk c) trivial
  cases x with
  | module m => exact hall c
  | product p aliases =>
    have hp := danglingFault?_product.1 hx
    obtain ⟨c', hc', hclosed⟩ := hall (plan.closeProduct c (g.productKey d p))
    refine ⟨c', ?_, .product ?_⟩
    · simp [Plan.closeDependency, productKey?_of_lt hp, hc']
    · rw [dependencyKeys, List.map_map] at hclosed
      exact hclosed

/-- Taking in everything behind a build at the end of a path ends. The fuel covers what is left of
the longest path. -/
lemma exists_close (hg : g.IsClosed) (hplan : plan.Covers g) {fuel : Nat} :
    ∀ (path : List ModuleKey) (c : Closure) (k : ModuleKey), Trail g (k :: path) →
      start ∈ k :: path → plan.modules.length < fuel + path.length →
        ∃ c', plan.close g fuel c k = .ok c' ∧
          Closed g plan start (k :: path) c (g.successors (.module k)) c' := by
  induction fuel with
  | zero =>
    intro path c k htrail _ hfuel
    have hlength := htrail.length_le hplan.acyclic
    rw [List.length_cons, ← hplan.length] at hlength
    omega
  | succ fuel ih =>
    intro path c k htrail hstart hfuel
    have hmodule : ∀ l ∈ g.childKeys k, ∀ c, ∃ c',
        plan.closeModule (plan.close g fuel) c (.ok l) = .ok c' ∧
          Closed g plan start (k :: path) c [.module l] c' := by
      intro l hl
      have hdeeper := htrail.child hg hl
      refine exists_closeModule hplan hstart hdeeper fun c => ?_
      refine ih (k :: path) c l hdeeper (List.mem_cons_of_mem l hstart) ?_
      rw [List.length_cons]
      omega
    rw [Plan.close, module_of_lt (lt_of_mem_reachedModules (htrail.planned k (by simp))),
      successors, List.map_eq_flatMap]
    exact Fault.exists_foldlM .refl .trans (fun _ _ => trivial)
      (fun x hx c (_ : True) => exists_closeSlots hg (hg.dependency hx)
        (fun l hl => hmodule l (List.mem_flatMap.2 ⟨x, hx, hl⟩)) c) trivial

/-- The list of everything that a build depends on is the preorder from there, less what that
repeats. -/
lemma exists_recursiveDependencies (hg : g.IsClosed) (hplan : plan.Covers g) {k : ModuleKey}
    (hk : k ∈ g.reachedModules) :
    ∃ ds walked, plan.recursiveDependencies g k = .ok ds ∧
      InPreorder g (g.successors (.module k)) walked ∧ ds.map (·.node) = walked.eraseDups ∧
        ∀ x ∈ ds, x.IsOf plan := by
  have hstart : Closure.Follows g plan k [k] { modules := [k] } [] := by
    refine ⟨rfl, ?_, ?_, ?_, ?_⟩ <;> simp
  obtain ⟨c, hc, hclosed⟩ : ∃ c, plan.close g (plan.modules.length + 1) { modules := [k] } k =
      .ok c ∧ Closed g plan k [k] { modules := [k] } (g.successors (.module k)) c :=
    exists_close hg hplan [] _ k (hplan.trail hk) (List.mem_singleton.2 rfl) (by simp)
  obtain ⟨walked, hwalked, hfollows⟩ := hclosed [] hstart
  exact ⟨c.found, walked, by simp [Plan.recursiveDependencies, hc], hwalked, hfollows.listed,
    hfollows.planned⟩

end Walk

/-- **All that a build depends on is listed once, in the order in which a walk comes to it.** The
list ends for every build of the plan. It is the preorder of the walk that goes on from every node
it comes to, with all that this repeats left out; that preorder is the only one. The listed modules
are the builds that one or more child steps lead to, so the build itself is not listed, and the
listed products are those that the build or a listed one depends on. Each is listed with what the
plan has for it. -/
theorem recursiveDependencies_inPreorder (hg : g.IsClosed) {engine : Diagnostic.Engine}
    {a : Attempt} {plan : Plan} (h : create g target host engine = .ok a)
    (hplan : a.plan = some plan) :
    ∀ m ∈ plan.modules, ∃ ds walked, plan.recursiveDependencies g m.key = .ok ds ∧
      (∀ ys, InPreorder g (g.successors (.module m.key)) ys ↔ ys = walked) ∧
      ds.map (·.node) = walked.eraseDups ∧ (ds.map (·.node)).Nodup ∧
      (∀ k, (∃ x, .module x ∈ ds ∧ x.key = k) ↔ TransGen (fun k l => l ∈ g.childKeys k) m.key k) ∧
      (∀ x, .module x ∈ ds → x.key ≠ m.key ∧ plan.module? x.key = some x) ∧
      ∀ q p, .product q p ∈ ds ↔ p = plan.product? q ∧
        ∃ k, (k = m.key ∨ ∃ x, .module x ∈ ds ∧ x.key = k) ∧
          ∃ i aliases, .product i aliases ∈ (g.moduleAt k.module).dependencies ∧
            g.productKey k.destination i = q := by
  have hcovers := covers_of_create hg h hplan
  intro m hm
  have hreached : m.key ∈ g.reachedModules := hcovers.mem_reachedModules hm
  obtain ⟨ds, walked, hds, hwalked, hlisted, hof⟩ :=
    exists_recursiveDependencies hg hcovers hreached
  have hmodules (k : ModuleKey) : (∃ x, .module x ∈ ds ∧ x.key = k) ↔
      TransGen (fun k l => l ∈ g.childKeys k) m.key k := hwalked.exists_module_iff hlisted
  refine ⟨ds, walked, hds, fun ys => ⟨fun hys => hys.eq hwalked, fun hys => hys ▸ hwalked⟩, hlisted,
    hlisted ▸ nodup_eraseDups walked, hmodules, fun x hx => ⟨fun hself => ?_, hof _ hx⟩,
    fun q p => ?_⟩
  · exact hcovers.irrefl hreached ((hmodules m.key).1 ⟨x, hx, hself⟩)
  · rw [product_mem_iff hof, hwalked.exists_node_iff hlisted, transGen_successors_iff]
    simp only [hmodules, ← product_mem_successors, Relation.reflTransGen_iff_eq_or_transGen]

/-- An application and a macro that both use a product of two modules, one of which needs the
other. -/
def layered : Graph where
  packages := [
    { identity := "app", display := "app", isRoot := true, modules := [0, 1] },
    { identity := "core", display := "core", modules := [2, 3], products := [0] }]
  modules := [
    { name := "App", kind := .executable, dependencies := [.module 1, .product 0 []] },
    { name := "Macros", kind := .codeMacro, dependencies := [.product 0 []] },
    { name := "Core", owner := 1, dependencies := [.module 3] },
    { name := "Base", owner := 1 }]
  products := [{ name := "core", owner := 1, kind := .staticLibrary, modules := [2, 3] }]

/-- The product is listed once for either destination, with its modules once. -/
theorem recursiveDependencies_inPreorder_layered : layered.IsClosed ∧ ∃ a plan ds,
    create layered (.debug .target) (.debug .host) {} = .ok a ∧ a.plan = some plan ∧
      plan.recursiveDependencies layered ⟨0, .target⟩ = .ok ds ∧ ds.map (·.node) =
        [.module ⟨1, .host⟩, .product ⟨0, .host⟩, .module ⟨2, .host⟩, .module ⟨3, .host⟩,
          .product ⟨0, .target⟩, .module ⟨2, .target⟩, .module ⟨3, .target⟩] := by
  have hg : layered.IsClosed := by decide
  obtain ⟨a, plan, hcreate, hplan, hbuild⟩ : ∃ a plan, create layered (.debug .target)
      (.debug .host) {} = .ok a ∧ a.plan = some plan ∧ (plan.module? ⟨0, .target⟩).isSome = true :=
    exists_plan (fun plan => (plan.module? ⟨0, .target⟩).isSome) (by decide +kernel)
  obtain ⟨m, hm⟩ := Option.isSome_iff_exists.1 hbuild
  have hkey : m.key = ⟨0, .target⟩ := by simpa using List.find?_some hm
  obtain ⟨ds, walked, hds, hunique, hlisted, -⟩ :=
    recursiveDependencies_inPreorder hg hcreate hplan m (List.mem_of_find?_eq_some hm)
  rw [hkey] at hds hunique
  -- The module without dependencies is walked through behind its consumer and in the product.
  have hproduct (d : Destination) : InPreorder layered [.product ⟨0, d⟩]
      [.product ⟨0, d⟩, .module ⟨2, d⟩, .module ⟨3, d⟩, .module ⟨3, d⟩] := by
    have hbase : InPreorder layered [.module ⟨3, d⟩] [.module ⟨3, d⟩] := .singleton .nil
    have hcore : InPreorder layered [.module ⟨2, d⟩] [.module ⟨2, d⟩, .module ⟨3, d⟩] :=
      .singleton hbase
    exact .singleton (hcore.append hbase)
  have hmacros : InPreorder layered [.module ⟨1, .host⟩] (.module ⟨1, .host⟩ :: _) :=
    .singleton (hproduct .host)
  refine ⟨hg, a, plan, ds, hcreate, hplan, hds, ?_⟩
  rw [hlisted, ← (hunique _).1 (hmacros.append (hproduct .target))]
  decide

end BuildPlanner.Build
