import BuildPlanner.Proofs.Alias.Causes
import BuildPlanner.Proofs.Graph.Lookup

/-!
What the views hold that a walk completes, whether it ends or meets a cycle.

The view of a module is complete when all dependencies of the module are settled. It shows what the
module leads to and nothing else, since no layer takes the last name of a module away and no merge
loses one. A name that is not a module's own came from a product, and its entry says from which one,
however often views are merged and relabelled later (`Survey.Follows.settle`). This is what the
choice of names and the alias maps rely on, so resolution ends without a fault.
-/

namespace BuildPlanner.Alias

open Relation (ReflTransGen)

variable {g : Graph}

/-! ### Definitions -/

/-- A product gives a module a name that is seen from some modules: one of them leads to a
dependency on the product with a surviving request for the name, and the product leads to the
module. -/
structure GivenBy (g : Graph) (ns : List ModuleId) (p : ProductId) (s : Sighting) : Prop where
  requested : ∃ n ∈ ns, ∃ c i rs, ReflTransGen g.Leads n c ∧
    (g.moduleAt c).dependencies[i]? = some (.product p rs) ∧
      ∃ r ∈ survivors g c i, r.replacement = s.name
  leads : ∃ n ∈ (g.productAt p).modules, ReflTransGen g.Leads n s.module
  nonempty : s.name ≠ ""

/-- A view shows exactly the modules that `sources` lead to, each under some name. Names that are
not a module's own carry a product, and a product that is carried gave the name behind `givers`. -/
structure View.Gathers (g : Graph) (sources givers : List ModuleId) (v : View) : Prop where
  seen : ∀ d, (∃ name, (⟨d, name⟩ : Sighting) ∈ v.sightings) ↔
    ∃ n ∈ sources, ReflTransGen g.Leads n d
  tagged : View.Tagged g v
  given : ∀ s p, (s, some p) ∈ v.entries → GivenBy g givers p s

/-- The views that are complete at some moment of the walk of a graph, with the modules that they
are put together from and those behind which their names are given. They are the views of modules
whose dependencies are settled, what a product shows to a dependency that is about to be settled,
this relabelled by the surviving requests, and what the root modules see in the end. -/
inductive Completed (g : Graph) : (sources givers : List ModuleId) → View → Prop
  | module {es : List Edge} {m : ModuleId} (hes : es <+: (Walk.ofGraph g).settled)
      (hm : m < g.modules.length) (hall : Complete g es m) :
      Completed g [m] [m] ((Survey.after g es).view m)
  | product {es : List Edge} {e : Edge} {p : ProductId} {rs : List AliasRequest}
      (hes : es ++ [e] <+: (Walk.ofGraph g).settled)
      (hd : (g.moduleAt e.consumer).dependencies[e.order]? = some (.product p rs)) :
      Completed g (g.productAt p).modules (g.productAt p).modules
        ((Survey.after g es).base g (.product p rs))
  | layer {es : List Edge} {e : Edge} {p : ProductId} {rs : List AliasRequest}
      (hes : es ++ [e] <+: (Walk.ofGraph g).settled)
      (hd : (g.moduleAt e.consumer).dependencies[e.order]? = some (.product p rs)) :
      Completed g (g.productAt p).modules [e.consumer]
        (Layer.relabel g ⟨p, survivors g e.consumer e.order⟩
          ((Survey.after g es).base g (.product p rs)))
  | roots (h : (Walk.ofGraph g).cycle = none) :
      Completed g g.rootModules g.rootModules ((Survey.ofGraph g).reach g)

/-! ### Views put together -/

lemma GivenBy.mono {ns ms : List ModuleId} {p : ProductId} {s : Sighting} (h : GivenBy g ns p s)
    (hns : ∀ n ∈ ns, ∃ m ∈ ms, ReflTransGen g.Leads m n) : GivenBy g ms p s := by
  obtain ⟨⟨n, hn, c, i, rs, hc, hd, hr⟩, hleads, hnonempty⟩ := h
  obtain ⟨m, hm, hmn⟩ := hns n hn
  exact ⟨⟨m, hm, c, i, rs, hmn.trans hc, hd, hr⟩, hleads, hnonempty⟩

namespace View.Gathers

lemma foldl_merge {f : ModuleId → View} {ns : List ModuleId}
    (h : ∀ n ∈ ns, (f n).Gathers g [n] [n]) :
    Gathers g ns ns (ns.foldl (fun v n => v.merge (f n)) .empty) := by
  refine ⟨fun d => ?_, tagged_empty.foldl_merge fun n hn => (h n hn).tagged, ?_⟩
  · simp only [sightings_foldl_merge, sightings_empty, Finset.empty_union, Finset.mem_biUnion,
      List.mem_toFinset]
    refine ⟨?_, ?_⟩
    · rintro ⟨name, n, hn, hd⟩
      exact ⟨n, hn, by simpa using ((h n hn).seen d).1 ⟨name, hd⟩⟩
    · rintro ⟨n, hn, hd⟩
      obtain ⟨name, hname⟩ := ((h n hn).seen d).2 ⟨n, by simp, hd⟩
      exact ⟨name, n, hn, hname⟩
  · refine List.foldlRecOn ns _ (motive := fun v : View => ∀ s p, (s, some p) ∈ v.entries →
      GivenBy g ns p s) (by simp [SortedMap.empty]) fun v hv n hn s p hs => ?_
    rcases SortedMap.mem_of_mem_merge hs with hs | hs
    · exact hv s p hs
    · exact ((h n hn).given s p hs).mono fun k hk => ⟨n, hn, List.mem_singleton.1 hk ▸ .refl⟩

end View.Gathers

lemma givenBy_of_mem_survivors {c : ModuleId} {i : Nat} {p : ProductId}
    {rs : List AliasRequest} (hd : (g.moduleAt c).dependencies[i]? = some (.product p rs))
    {r : AliasRequest} (hr : r ∈ survivors g c i) {k : ModuleId}
    (hk : ∃ n ∈ (g.productAt p).modules, ReflTransGen g.Leads n k) :
    GivenBy g [c] p ⟨k, r.replacement⟩ := by
  refine ⟨⟨c, by simp, c, i, rs, .refl, hd, r, hr, rfl⟩, hk, fun hempty => ?_⟩
  have hvalid := isValid_of_mem_survivors hr
  dsimp only at hempty
  rw [hempty] at hvalid
  exact absurd hvalid (by decide)

lemma View.Gathers.behind {c : ModuleId} {i : Nat} {d : Dependency}
    (hd : (g.moduleAt c).dependencies[i]? = some d) {v : View}
    (h : v.Gathers g (g.targets d) (g.targets d)) : v.Gathers g (g.targets d) [c] :=
  ⟨h.seen, h.tagged, fun s p hs => (h.given s p hs).mono fun _ hn =>
    ⟨c, by simp, .single (Graph.leads_of_getElem? hd hn)⟩⟩

/-- The surviving requests on a dependency give new names, and take no module out of sight. -/
lemma Layer.gathers_relabel {c : ModuleId} {i : Nat} {p : ProductId} {rs : List AliasRequest}
    (hd : (g.moduleAt c).dependencies[i]? = some (.product p rs)) {base : View}
    (h : base.Gathers g (g.productAt p).modules (g.productAt p).modules) :
    (relabel g ⟨p, survivors g c i⟩ base).Gathers g (g.productAt p).modules [c] := by
  refine ⟨fun k => ?_, tagged_relabel _ h.tagged, fun s q hs => ?_⟩
  · rw [sightings_relabel, exists_mem_relabelled]
    exact h.seen k
  · obtain ⟨⟨⟨k, old⟩, tag⟩, he, hentry⟩ := List.mem_map.1 (SortedMap.mem_of_mem_ofList hs)
    rcases entry_eq_or (g := g) ⟨p, survivors g c i⟩ base.carried (⟨k, old⟩, tag) with
      hkept | ⟨r, hr, hrenamed⟩
    · rw [hkept] at hentry
      exact (View.Gathers.behind hd h).given s q (hentry ▸ he)
    · rw [hrenamed] at hentry
      obtain ⟨rfl, hq⟩ := Prod.mk.inj hentry
      obtain rfl := Option.some.inj hq
      exact givenBy_of_mem_survivors hd hr
        ((h.seen k).1 ⟨old, View.mem_sightings.2 ⟨tag, he⟩⟩)

/-! ### Along a walk -/

namespace Survey

/-- The views follow from the given settled dependencies: a module is seen that is behind one of
them, and names are given behind the module that sees them. -/
structure Follows (g : Graph) (es : List Edge) (s : Survey) : Prop where
  length : s.views.length = g.modules.length
  seen : ∀ m < g.modules.length, ∀ k, (∃ name, (⟨k, name⟩ : Sighting) ∈ (s.view m).sightings) ↔
    k = m ∨ ∃ i d, (⟨m, i⟩ : Edge) ∈ es ∧ (g.moduleAt m).dependencies[i]? = some d ∧
      ∃ n ∈ g.targets d, ReflTransGen g.Leads n k
  tagged : ∀ m, View.Tagged g (s.view m)
  given : ∀ m x p, (x, some p) ∈ (s.view m).entries → GivenBy g [m] p x

variable {s : Survey} {es : List Edge}

lemma follows_start (g : Graph) : Follows g [] (start g) := by
  have hholds := holds_start g
  refine ⟨hholds.length, fun m hm k => ?_, hholds.tagged, fun m x p hx => ?_⟩
  · simp [hholds.sightings m hm]
  · rw [view_start] at hx
    split at hx
    · rcases SortedMap.mem_insertNew.1 hx with hx | ⟨hx, -⟩
      · exact absurd hx List.not_mem_nil
      · cases hx
    · exact absurd hx List.not_mem_nil

lemma Follows.gathers (h : Follows g es s) {m : ModuleId} (hm : m < g.modules.length)
    (hall : Complete g es m) : (s.view m).Gathers g [m] [m] := by
  refine ⟨fun k => ?_, h.tagged m, h.given m⟩
  rw [h.seen m hm k]
  simp only [List.mem_singleton, exists_eq_left, ReflTransGen.cases_head_iff (a := m),
    Graph.leads_iff_getElem?]
  refine or_congr eq_comm ⟨?_, ?_⟩
  · rintro ⟨i, d, -, hd, n, hn, hk⟩
    exact ⟨n, ⟨i, d, hd, hn⟩, hk⟩
  · rintro ⟨n, ⟨i, d, hd, hn⟩, hk⟩
    exact ⟨i, d, hall.mem hd, hd, n, hn, hk⟩

lemma Follows.gathers_base (h : Follows g es s) (hg : g.IsClosed) {c : ModuleId} {i : Nat}
    {d : Dependency} (hd : (g.moduleAt c).dependencies[i]? = some d)
    (hbehind : ∀ n ∈ g.targets d, Complete g es n) :
    (s.base g d).Gathers g (g.targets d) (g.targets d) :=
  .foldl_merge fun n hn =>
    h.gathers (hg.leads_lt (Graph.leads_of_getElem? hd hn)) (hbehind n hn)

lemma Follows.gathers_bring (h : Follows g es s) (hg : g.IsClosed) {e : Edge} {d : Dependency}
    (hd : (g.moduleAt e.consumer).dependencies[e.order]? = some d)
    (hbehind : ∀ n ∈ g.targets d, Complete g es n) :
    (s.bring g e d).Gathers g (g.targets d) [e.consumer] := by
  have hbase := h.gathers_base hg hd hbehind
  cases d with
  | module n => exact hbase.behind hd
  | product p rs =>
    rw [bring]
    split
    · exact hbase.behind hd
    · exact Layer.gathers_relabel hd hbase

/-- **A settled dependency adds what is behind it, and gives names by its product.** -/
theorem Follows.settle (h : Follows g es s) (hg : g.IsClosed) {e : Edge} {d : Dependency}
    (hd : (g.moduleAt e.consumer).dependencies[e.order]? = some d)
    (hbehind : ∀ n ∈ g.targets d, Complete g es n) :
    Follows g (es ++ [e]) (s.settle g (g.modules.map (Screening.ofModule g)) e) := by
  have hbring := h.gathers_bring hg hd hbehind
  refine ⟨(length_settle s hd).trans h.length, fun m hm k => ?_, tagged_settle h.tagged hd,
    fun m x p hx => ?_⟩
  · have hmerged (name : String) :=
      mem_sightings_settle s hd (h.length ▸ hm) (x := (⟨k, name⟩ : Sighting))
    rw [exists_congr hmerged, exists_or, exists_and_left, h.seen m hm, hbring.seen, or_assoc]
    exact or_congr_right (exists_settled_concat hd
      (P := fun _ _ d => ∃ n ∈ g.targets d, ReflTransGen g.Leads n k)).symm
  · rw [view_settle s hd] at hx
    split at hx
    · next hm =>
      rcases SortedMap.mem_of_mem_merge hx with hx | hx
      · exact h.given m x p hx
      · exact hm.1 ▸ hbring.given x p hx
    · exact h.given m x p hx

/-- **Along any order of settling, views follow from what is settled**, also where cycles are. -/
theorem follows_after (hg : g.IsClosed) (h : Ordered g es) : Follows g es (after g es) := by
  induction h with
  | nil => exact follows_start g
  | @snoc es e d _ _ hd hbehind ih =>
    rw [after, List.foldl_append]
    exact ih.settle hg hd hbehind

end Survey

/-! ### Complete views -/

/-- Every view that is complete at some moment shows what it should. -/
lemma Completed.gathers (hg : g.IsClosed) {sources givers : List ModuleId} {v : View}
    (h : Completed g sources givers v) : v.Gathers g sources givers := by
  obtain ⟨path, hw⟩ := Walk.ofGraph_valid hg
  cases h with
  | module hes hm hall =>
    exact (Survey.follows_after hg (hw.ordered.of_prefix hes)).gathers hm hall
  | product hes hd =>
    have hlast := hw.ordered.of_prefix hes
    exact (Survey.follows_after hg (hlast.of_prefix (List.prefix_append _ _))).gathers_base hg hd
      (hlast.behind_last hd)
  | layer hes hd =>
    have hlast := hw.ordered.of_prefix hes
    exact Layer.gathers_relabel hd
      ((Survey.follows_after hg (hlast.of_prefix (List.prefix_append _ _))).gathers_base hg hd
        (hlast.behind_last hd))
  | roots hrunning =>
    have hcomplete := (Walk.ofGraph_cycle hg).2 (Walk.not_isCyclic hg hrunning)
    exact .foldl_merge fun r hr => (Survey.follows_after hg hw.ordered).gathers
      (hg.rootModule_lt hr) (hcomplete.2 r (Graph.isReached_root hr))

lemma Resolution.exists_print (hg : g.IsClosed) (r : Resolution) :
    ∃ text, r.print g = .ok text := by
  have hlines : ∀ m ∈ g.moduleIds.filter r.isReachable, ∃ line, (do
      return (← g.qualifiedModule m) ++ " -> " ++ (← r.finalName m) ++
        printAliases (r.aliases m) ++ "\n" : Except Fault String) = .ok line := by
    intro m hm
    obtain ⟨hrange, hreachable⟩ := List.mem_filter.1 hm
    obtain ⟨n, hn⟩ := Option.isSome_iff_exists.1 hreachable
    have hname : r.finalName m = .ok n.finalName := by rw [Resolution.finalName, hn]
    rw [hg.qualifiedModule_eq (List.mem_range.1 hrange), hname]
    exact ⟨_, rfl⟩
  obtain ⟨lines, hall⟩ := Fault.exists_mapM_eq_ok.2 hlines
  exact ⟨_, Fault.bind_eq_ok.2 ⟨lines, hall, rfl⟩⟩

/-- What a reachable module sees is complete, and all that it sees has a final name. -/
lemma finalName_of_isReachable (hg : g.IsClosed) {o : Outcome} (ho : resolve g = .ok o)
    {m : ModuleId} (hm : o.resolution.isReachable m = true) :
    Complete g (Walk.ofGraph g).settled m ∧ ∀ d ∈ ((Survey.ofGraph g).view m).modules g,
      o.resolution.finalName d = .ok (finalName g ((Survey.ofGraph g).reach g) d) := by
  by_cases hc : g.IsCyclic
  · obtain ⟨c, -, hcyclic⟩ := resolve_eq_cyclic hg hc
    obtain rfl := Except.ok.inj (hcyclic.symm.trans ho)
    simp [cyclic, Resolution.isReachable, Resolution.naming?, List.getD_eq_getElem?_getD] at hm
  · have hdecides := decides_of_resolve hg hc ho
    have hreached := hdecides.isReachable_iff.1 hm
    refine ⟨((Walk.ofGraph_cycle hg).2 hc).2 m hreached, fun d hd => ?_⟩
    obtain ⟨-, name, hname⟩ := View.mem_modules.1 hd
    rw [Survey.sightings_view hg hc hreached] at hname
    have hled := (exists_mem_visible_iff hg hc hreached).1 ⟨name, hname⟩
    rw [hdecides.finalName_eq (hreached.trans hled), finalName_eq_chosenName,
      Survey.sightings_reach hg hc]

/-- **What resolution relies on holds at every moment.** A complete view shows exactly what its
sources lead to, and each name that is not a module's own carries the product that gave it. Finished
modules have complete views. However many root modules a walk has been through, it has finished them
all or met a cycle that is one. Resolution ends without a fault, with a cycle or without, and its
result can be printed. A reachable module has a complete view, and all that it sees has a final
name. -/
theorem completed_gathers (hg : g.IsClosed) :
    (∀ sources givers v, Completed g sources givers v → v.Gathers g sources givers) ∧
    (∀ m ∈ (Walk.ofGraph g).finished,
      m < g.modules.length ∧ Complete g (Walk.ofGraph g).settled m) ∧
    (∀ rs, rs <+: g.rootModules → (Walk.along g rs).AtLoop g ∨
      (Walk.along g rs).cycle = none ∧ ∀ r ∈ rs, r ∈ (Walk.along g rs).finished) ∧
    ∃ o, resolve g = .ok o ∧ (∃ text, o.resolution.print g = .ok text) ∧
      ∀ m, o.resolution.isReachable m = true → Complete g (Walk.ofGraph g).settled m ∧
        ∀ d ∈ ((Survey.ofGraph g).view m).modules g,
          o.resolution.finalName d = .ok (finalName g ((Survey.ofGraph g).reach g) d) := by
  obtain ⟨path, hw⟩ := Walk.ofGraph_valid hg
  obtain ⟨o, ho⟩ := exists_resolve hg
  refine ⟨fun _ _ _ h => h.gathers hg, fun m hm => ⟨hg.reached_lt (hw.reached m hm), ?_⟩,
    fun rs hrs => ?_, o, ho, o.resolution.exists_print hg,
    fun m => finalName_of_isReachable hg ho⟩
  · exact hw.complete m hm
  · exact (Walk.along_spec hg fun r hr => hrs.subset hr).imp Walk.Stopped.atLoop fun h =>
      ⟨h.1.running, h.2⟩

/-- An application that sees a module under its own name again, given back by one product and never
taken by another, beside two modules that depend on each other. -/
def restored : Graph where
  packages := [
    { identity := "app", display := "app", isRoot := true, modules := [0, 3, 4] },
    { identity := "mid", display := "mid", modules := [1], products := [0] },
    { identity := "lib", display := "lib", modules := [2], products := [1] }]
  modules := [
    { name := "App", dependencies := [.product 0 [⟨"FooUtils", "Utils"⟩], .product 1 []] },
    { name := "Mid", owner := 1, dependencies := [.product 1 [⟨"Utils", "FooUtils"⟩]] },
    { name := "Utils", owner := 2 },
    { name := "Core", dependencies := [.module 4] },
    { name := "Shell", dependencies := [.module 3] }]
  products := [
    { name := "MidKit", owner := 1, modules := [1] },
    { name := "Lib", owner := 2, modules := [2] }]

theorem completed_gathers_restored : restored.IsClosed ∧ restored.IsCyclic ∧
    (Walk.ofGraph restored).finished = [2, 1, 0] ∧
    ((Survey.ofGraph restored).view 0).entries =
      [(⟨0, "App"⟩, none), (⟨1, "Mid"⟩, none), (⟨2, "Utils"⟩, some 0)] ∧
    ((Survey.ofGraph restored).view 1).entries =
      [(⟨1, "Mid"⟩, none), (⟨2, "FooUtils"⟩, some 1)] ∧
    GivenBy restored [0] 0 ⟨2, "Utils"⟩ ∧ GivenBy restored [1] 1 ⟨2, "FooUtils"⟩ ∧
    ∃ o text, resolve restored = .ok o ∧ o.resolution.print restored = .ok text := by
  have hg : restored.IsClosed := by decide
  have hroot : restored.IsReached 3 := Graph.isReached_root (by decide)
  have hthere : restored.Leads 3 4 := .module (by decide)
  have hback : restored.Leads 4 3 := .module (by decide)
  have hfinished : (Walk.ofGraph restored).finished = [2, 1, 0] := by decide +kernel
  have happ : ((Survey.ofGraph restored).view 0).entries =
      [(⟨0, "App"⟩, none), (⟨1, "Mid"⟩, none), (⟨2, "Utils"⟩, some 0)] := by decide +kernel
  have hmid : ((Survey.ofGraph restored).view 1).entries =
      [(⟨1, "Mid"⟩, none), (⟨2, "FooUtils"⟩, some 1)] := by decide +kernel
  obtain ⟨hgathers, hcomplete, -, o, ho, ⟨text, htext⟩, -⟩ := completed_gathers hg
  have hview (m : ModuleId) (hm : m ∈ (Walk.ofGraph restored).finished) :
      ((Survey.ofGraph restored).view m).Gathers restored [m] [m] :=
    hgathers _ _ _ (.module List.prefix_rfl (hcomplete m hm).1 (hcomplete m hm).2)
  exact ⟨hg, ⟨3, hroot, .head hthere (.single hback)⟩, hfinished, happ, hmid,
    (hview 0 (by simp [hfinished])).given _ _ (by simp [happ]),
    (hview 1 (by simp [hfinished])).given _ _ (by simp [hmid]), o, text, ho, htext⟩

end BuildPlanner.Alias
