import BuildPlanner.Proofs.Build.Closure

/-!
Lists of dependencies in graphs that a plan was not made of.

The graph of a plan can have grown, so a list can come to a build that was not planned, and it can
go around a cycle. It still ends: it goes on only from builds of the plan that it has not met, each
of which is one less to meet, so the fuel never runs out. All that it lists is new to it, and its
start was met before anything else.
-/

namespace BuildPlanner.Build

open BuildPlanner.Graph

variable {g : Graph} {plan : Plan}

/-! ### Definitions -/

namespace Closure

def enter (c : Closure) (k : ModuleKey) (m : PlannedModule) : Closure :=
  { c with modules := k :: c.modules, found := c.found ++ [.module m] }

/-- Taking in the nodes `xs` and everything behind them ends in `r`. -/
inductive Ends (g : Graph) (plan : Plan) : Closure → List Node → Except Fault Closure → Prop
  | nil {c : Closure} : Ends g plan c [] (.ok c)
  | product {c : Closure} {q : ProductKey} {xs : List Node} {r : Except Fault Closure}
      (hrest : Ends g plan (plan.closeProduct c q) (g.successors (.product q) ++ xs) r) :
    Ends g plan c (.product q :: xs) r
  | seen {c : Closure} {k : ModuleKey} {xs : List Node} {r : Except Fault Closure}
      (hk : k ∈ c.modules) (hrest : Ends g plan c xs r) : Ends g plan c (.module k :: xs) r
  | unplanned {c : Closure} {k : ModuleKey} {xs : List Node} (hnew : k ∉ c.modules)
      (hk : plan.module? k = none) :
    Ends g plan c (.module k :: xs) (.error .unplannedDependency)
  | new {c : Closure} {k : ModuleKey} {m : PlannedModule} {xs : List Node}
      {r : Except Fault Closure} (hnew : k ∉ c.modules) (hk : plan.module? k = some m)
      (hrest : Ends g plan (c.enter k m) (g.successors (.module k) ++ xs) r) :
    Ends g plan c (.module k :: xs) r

/-- What was found from `start` was met, once, and is not the start. -/
structure IsTidy (start : ModuleKey) (c : Closure) : Prop where
  nodup : (c.found.map (·.node)).Nodup
  started : start ∈ c.modules
  modules : ∀ k, .module k ∈ c.found.map (·.node) → k ∈ c.modules ∧ k ≠ start
  products : ∀ q, .product q ∈ c.found.map (·.node) → q ∈ c.products

end Closure

def Plan.unmet (plan : Plan) (c : Closure) : ℕ :=
  ((plan.modules.map (·.key)).toFinset \ c.modules.toFinset).card

/-! ### Ends of lists -/

section Closures

variable {c c' : Closure} {start : ModuleKey} {xs ys : List Node} {r s : Except Fault Closure}

lemma Plan.modules_closeProduct (c : Closure) (q : ProductKey) :
    (plan.closeProduct c q).modules = c.modules := by
  unfold closeProduct
  split <;> rfl

namespace Closure.Ends

lemma eq (h : Closure.Ends g plan c xs r) (h' : Closure.Ends g plan c xs s) : r = s := by
  induction h generalizing s with
  | nil =>
    cases h'
    rfl
  | product _ ih =>
    cases h' with
    | product hrest => exact ih hrest
  | seen hk _ ih =>
    cases h' with
    | seen _ hrest => exact ih hrest
    | _ => contradiction
  | unplanned hnew hk => cases h' <;> simp_all
  | new hnew hk _ ih =>
    cases h' with
    | new _ hk' hrest =>
      obtain rfl := Option.some.inj (hk.symm.trans hk')
      exact ih hrest
    | _ => simp_all

lemma append {next : Closure → Except Fault Closure} (h : Closure.Ends g plan c xs r)
    (hnext : ∀ c', r = .ok c' → Closure.Ends g plan c' ys (next c')) :
    Closure.Ends g plan c (xs ++ ys) (r >>= next) := by
  induction h with
  | nil => exact hnext _ rfl
  | product _ ih =>
    rw [List.append_assoc] at ih
    exact .product (ih hnext)
  | seen hk _ ih => exact .seen hk (ih hnext)
  | unplanned hnew hk => exact .unplanned hnew hk
  | new hnew hk _ ih =>
    rw [List.append_assoc] at ih
    exact .new hnew hk (ih hnext)

lemma fault_eq {f : Fault} (h : Closure.Ends g plan c xs (.error f)) :
    f = .unplannedDependency := by
  generalize hr : Except.error f = r at h
  induction h with
  | nil => cases hr
  | unplanned => exact Except.error.inj hr
  | product _ ih | seen _ _ ih | new _ _ _ ih => exact ih hr

lemma modules_subset (h : Closure.Ends g plan c xs (.ok c')) : c.modules ⊆ c'.modules := by
  generalize hr : Except.ok c' = r at h
  induction h with
  | nil =>
    obtain rfl := Except.ok.inj hr
    exact List.Subset.refl _
  | product _ ih =>
    rw [Plan.modules_closeProduct] at ih
    exact ih hr
  | seen _ _ ih => exact ih hr
  | unplanned => cases hr
  | new _ _ _ ih => exact fun k hk => ih hr (List.mem_cons_of_mem _ hk)

end Closure.Ends

lemma mem_nodes_concat {ds : List PlannedDependency} {d : PlannedDependency} {x : Node} :
    x ∈ (ds ++ [d]).map (·.node) ↔ x ∈ ds.map (·.node) ∨ x = d.node := by
  rw [List.map_append, List.mem_append, List.map_singleton, List.mem_singleton]

lemma nodup_nodes_concat {ds : List PlannedDependency} {d : PlannedDependency}
    (h : (ds.map (·.node)).Nodup) (hd : d.node ∉ ds.map (·.node)) :
    ((ds ++ [d]).map (·.node)).Nodup := by
  rw [List.map_append, List.map_singleton, ← List.concat_eq_append, List.nodup_concat]
  exact ⟨hd, h⟩

namespace Closure.IsTidy

lemma product (h : c.IsTidy start) (q : ProductKey) : (plan.closeProduct c q).IsTidy start := by
  unfold Plan.closeProduct
  split
  · exact h
  · next hq =>
    refine ⟨nodup_nodes_concat h.nodup fun hmem => hq (h.products q hmem), h.started,
      fun k hk => ?_, fun p hp => ?_⟩
    · rcases mem_nodes_concat.1 hk with hk | hk
      · exact h.modules k hk
      · cases hk
    · rcases mem_nodes_concat.1 hp with hp | hp
      · exact List.mem_cons_of_mem q (h.products p hp)
      · obtain rfl := Node.product.inj hp
        exact List.mem_cons_self

lemma enter (h : c.IsTidy start) {m : PlannedModule} (hnew : m.key ∉ c.modules) :
    (c.enter m.key m).IsTidy start := by
  refine ⟨nodup_nodes_concat h.nodup fun hmem => hnew (h.modules m.key hmem).1,
    List.mem_cons_of_mem m.key h.started, fun k hk => ?_, fun q hq => ?_⟩
  · rcases mem_nodes_concat.1 hk with hk | hk
    · exact (h.modules k hk).imp_left (List.mem_cons_of_mem m.key)
    · obtain rfl := Node.module.inj hk
      exact ⟨List.mem_cons_self, (ne_of_mem_of_not_mem h.started hnew).symm⟩
  · rcases mem_nodes_concat.1 hq with hq | hq
    · exact h.products q hq
    · cases hq

end Closure.IsTidy

/-- **A closure lists no node twice, nor its start.** -/
lemma Closure.Ends.isTidy (h : Closure.Ends g plan c xs (.ok c')) (htidy : c.IsTidy start) :
    c'.IsTidy start := by
  generalize hr : Except.ok c' = r at h
  induction h with
  | nil =>
    obtain rfl := Except.ok.inj hr
    exact htidy
  | product _ ih => exact ih (htidy.product _) hr
  | seen _ _ ih => exact ih htidy hr
  | unplanned => cases hr
  | @new c k m xs r hnew hk _ ih =>
    obtain rfl := Plan.key_of_module? hk
    exact ih (htidy.enter hnew) hr

/-! ### Fuel -/

namespace Plan

lemma unmet_le (h : c.modules ⊆ c'.modules) : plan.unmet c' ≤ plan.unmet c := card_sdiff_mono h

lemma unmet_enter_lt {k : ModuleKey} {m : PlannedModule} (hk : plan.module? k = some m)
    (hnew : k ∉ c.modules) : plan.unmet (c.enter k m) < plan.unmet c := by
  refine card_sdiff_cons (List.mem_toFinset.2 (isSome_module?_iff.1 ?_)) hnew
  rw [hk]
  rfl

end Plan

lemma foldlM_ends {α : Type} {step : Closure → α → Except Fault Closure} {nodes : α → List Node}
    {n : ℕ} {l : List α} (h : ∀ a ∈ l, ∀ c, plan.unmet c ≤ n →
      Closure.Ends g plan c (nodes a) (step c a)) (hn : plan.unmet c ≤ n) :
    Closure.Ends g plan c (l.flatMap nodes) (l.foldlM step c) := by
  induction l generalizing c with
  | nil => exact .nil
  | cons a l ih =>
    have hfirst := h a List.mem_cons_self c hn
    rw [List.flatMap_cons, List.foldlM_cons]
    refine hfirst.append fun c' hc' => ih (fun b hb => h b (List.mem_cons_of_mem a hb)) ?_
    exact (Plan.unmet_le (hc' ▸ hfirst).modules_subset).trans hn

lemma closeModule_ok {expand : Closure → ModuleKey → Except Fault Closure} {k : ModuleKey} :
    plan.closeModule expand c (.ok k) =
      if k ∈ c.modules then .ok c else plan.planned k >>= fun m => expand (c.enter k m) k :=
  rfl

lemma closeModule_ends {expand : Closure → ModuleKey → Except Fault Closure} {k : ModuleKey}
    (hexpand : ∀ m, plan.module? k = some m → k ∉ c.modules →
      Closure.Ends g plan (c.enter k m) (g.successors (.module k)) (expand (c.enter k m) k)) :
    Closure.Ends g plan c [.module k] (plan.closeModule expand c (.ok k)) := by
  rw [closeModule_ok]
  split
  · next hmem => exact .seen hmem .nil
  · next hnew =>
    unfold Plan.planned
    cases hk : plan.module? k with
    | none => exact .unplanned hnew hk
    | some m =>
      have hrest := hexpand m hk hnew
      rw [← List.append_nil (g.successors _)] at hrest
      exact .new hnew hk hrest

lemma closeSlots_ends (hg : g.IsClosed) {expand : Closure → ModuleKey → Except Fault Closure}
    {d : Destination} {x : Dependency} (hx : g.danglingFault? x = none) {n : ℕ}
    (hmodules : ∀ k c, plan.unmet c ≤ n →
      Closure.Ends g plan c [.module k] (plan.closeModule expand c (.ok k)))
    (hn : plan.unmet c ≤ n) :
    Closure.Ends g plan c [g.dependencyNode d x] (do
      let c ← plan.closeDependency g d c x
      (dependencySlots g d x).foldlM (plan.closeModule expand) c) := by
  have hall (c : Closure) (hn : plan.unmet c ≤ n) :
      Closure.Ends g plan c ((g.dependencyKeys d x).map .module)
        ((dependencySlots g d x).foldlM (plan.closeModule expand) c) := by
    rw [hg.dependencySlots_eq hx, List.foldlM_map, List.map_eq_flatMap]
    exact foldlM_ends (fun k _ c hc => hmodules k c hc) hn
  cases x with
  | module m => exact hall c hn
  | product p aliases =>
    have hp := danglingFault?_product.1 hx
    have hmembers := hall (plan.closeProduct c (g.productKey d p))
      (by rwa [Plan.unmet, Plan.modules_closeProduct])
    rw [dependencyKeys, List.map_map, ← List.append_nil (List.map ..)] at hmembers
    rw [Plan.closeDependency, productKey?_of_lt hp]
    exact .product hmembers

/-- **Fuel for the builds that were not met is enough.** Every step inwards takes in one of them. -/
lemma close_ends (hg : g.IsClosed) (hrange : plan.InRange g) {fuel : ℕ} {k : ModuleKey}
    (hk : k.module < g.modules.length) (hfuel : plan.unmet c < fuel) :
    Closure.Ends g plan c (g.successors (.module k)) (plan.close g fuel c k) := by
  induction fuel generalizing c k with
  | zero => omega
  | succ fuel ih =>
    rw [Plan.close, module_of_lt hk, successors, List.map_eq_flatMap]
    refine foldlM_ends (fun x hx c hc => ?_) (Nat.le_of_lt_succ hfuel)
    refine closeSlots_ends hg (hg.dependency hx) (fun l c hc => ?_) hc
    refine closeModule_ends fun m hm hnew => ih (hrange l ?_) ?_
    · rw [hm]
      rfl
    · exact (Plan.unmet_enter_lt hm hnew).trans_le hc

end Closures

/-- The list of what a build of the plan depends on ends, with a fault for a build that was not
planned or with no repetition and without the build itself. -/
lemma exists_recursiveDependencies_ends (hg : g.IsClosed) (hrange : plan.InRange g)
    {m : PlannedModule} (hm : m ∈ plan.modules) :
    ∃ r, Closure.Ends g plan { modules := [m.key] } (g.successors (.module m.key)) r ∧
      plan.recursiveDependencies g m.key = r.map (·.found) ∧
        match r with
        | .ok c => (c.found.map (·.node)).Nodup ∧ .module m.key ∉ c.found.map (·.node)
        | .error f => f = .unplannedDependency := by
  have hk := hrange m.key (Plan.isSome_module?_iff.2 (List.mem_map_of_mem hm))
  have hunmet : plan.unmet { modules := [m.key] } ≤ plan.modules.length :=
    calc plan.unmet { modules := [m.key] } ≤ (plan.modules.map (·.key)).toFinset.card :=
          Finset.card_le_card Finset.sdiff_subset
      _ ≤ (plan.modules.map (·.key)).length := List.toFinset_card_le _
      _ = plan.modules.length := List.length_map _
  have hends : Closure.Ends g plan { modules := [m.key] } (g.successors (.module m.key))
      (plan.close g (plan.modules.length + 1) { modules := [m.key] } m.key) :=
    close_ends hg hrange hk (Nat.lt_succ_of_le hunmet)
  refine ⟨_, hends, ?_⟩
  unfold Plan.recursiveDependencies
  cases hr : plan.close g (plan.modules.length + 1) { modules := [m.key] } m.key with
  | error f =>
    rw [hr] at hends
    exact ⟨rfl, hends.fault_eq⟩
  | ok c =>
    rw [hr] at hends
    have hempty : Closure.IsTidy m.key { modules := [m.key] } := by
      constructor <;> simp
    have htidy := hends.isTidy hempty
    exact ⟨rfl, htidy.nodup, fun hmem => (htidy.modules _ hmem).2 rfl⟩

end BuildPlanner.Build
