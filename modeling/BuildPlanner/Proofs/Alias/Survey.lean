import BuildPlanner.Alias.Survey
import BuildPlanner.Proofs.Alias.Visible
import BuildPlanner.Proofs.SortedMap

/-!
The views of a survey are what modules see.

A dependency is settled when all dependencies behind it are, so the views it is computed from are
complete. By induction along the order of settling, the view of a module holds the sightings that
its settled dependencies bring, and at the end those that `visible` gives. Besides, every name in a
view that is not a module's own carries the product that gave it.
-/

namespace BuildPlanner.Alias

variable {g : Graph}

/-! ### Sightings of a view -/

namespace View

def sightings (v : View) : Finset Sighting := v.keys.toFinset

/-- Names that are not a module's own come from a product. -/
def Tagged (g : Graph) (v : View) : Prop :=
  ∀ e ∈ v.entries, e.1.name ≠ (g.moduleAt e.1.module).name → e.2.isSome

lemma mem_sightings {v : View} {s : Sighting} : s ∈ v.sightings ↔ ∃ p, (s, p) ∈ v.entries := by
  rw [sightings, List.mem_toFinset, SortedMap.mem_keys]

lemma contains_iff {v : View} {s : Sighting} : v.contains s = true ↔ s ∈ v.sightings := by
  rw [SortedMap.contains, Option.isSome_iff_ne_none, ne_eq, SortedMap.get?_eq_none_iff, not_not,
    sightings, List.mem_toFinset]

lemma sees_iff {v : View} {m : ModuleId} :
    v.sees m = true ↔ ∃ name, (⟨m, name⟩ : Sighting) ∈ v.sightings := by
  simp only [sees, List.any_eq_true, decide_eq_true_eq, mem_sightings]
  refine ⟨?_, ?_⟩
  · rintro ⟨⟨⟨m, name⟩, p⟩, he, rfl⟩
    exact ⟨name, p, he⟩
  · rintro ⟨name, p, he⟩
    exact ⟨_, he, rfl⟩

lemma mem_modules {v : View} {m : ModuleId} :
    m ∈ v.modules g ↔ m < g.modules.length ∧ ∃ name, (⟨m, name⟩ : Sighting) ∈ v.sightings := by
  rw [modules, List.mem_filter, sees_iff, Graph.moduleIds, List.mem_range]

lemma mem_carried {v : View} {name : String} :
    name ∈ v.carried ↔ ∃ s ∈ v.sightings, s.name = name := by
  simp only [carried, List.mem_map, mem_sightings]
  refine ⟨?_, ?_⟩
  · rintro ⟨⟨s, p⟩, he, rfl⟩
    exact ⟨s, ⟨p, he⟩, rfl⟩
  · rintro ⟨s, ⟨p, he⟩, rfl⟩
    exact ⟨_, he, rfl⟩

@[simp] lemma sightings_empty : sightings .empty = ∅ := rfl

lemma sightings_own (g : Graph) (m : ModuleId) :
    (own g m).sightings = {⟨m, (g.moduleAt m).name⟩} := by
  ext s
  rw [sightings, own, List.mem_toFinset, SortedMap.mem_keys_insertNew, SortedMap.keys_empty,
    Finset.mem_singleton]
  simp

lemma sightings_merge (v w : View) : sightings (v.merge w) = v.sightings ∪ w.sightings := by
  ext s
  simp only [sightings, List.mem_toFinset, SortedMap.mem_keys_merge, Finset.mem_union]

lemma sightings_foldl_merge {α : Type} [DecidableEq α] (f : α → View) (l : List α) (v : View) :
    sightings (l.foldl (fun v x => v.merge (f x)) v) =
      v.sightings ∪ l.toFinset.biUnion fun x => (f x).sightings := by
  induction l generalizing v with
  | nil => simp
  | cons x l ih =>
    rw [List.foldl_cons, ih, sightings_merge, List.toFinset_cons, Finset.biUnion_insert,
      Finset.union_assoc]

lemma tagged_empty : Tagged g .empty := by simp [Tagged, SortedMap.empty]

lemma tagged_own (g : Graph) (m : ModuleId) : Tagged g (own g m) := by
  intro e he hne
  rcases SortedMap.mem_insertNew.1 he with he | ⟨rfl, -⟩
  · exact absurd he List.not_mem_nil
  · exact absurd rfl hne

lemma Tagged.merge {v w : View} (hv : Tagged g v) (hw : Tagged g w) : Tagged g (v.merge w) :=
  fun e he => (SortedMap.mem_of_mem_merge he).elim (hv e) (hw e)

lemma Tagged.foldl_merge {α : Type} {f : α → View} {l : List α} {v : View} (hv : Tagged g v)
    (hf : ∀ x ∈ l, Tagged g (f x)) : Tagged g (l.foldl (fun v x => v.merge (f x)) v) :=
  List.foldlRecOn _ _ hv fun _ h x hx => h.merge (hf x hx)

end View

/-! ### Layers -/

namespace Layer

lemma entry_eq (l : Layer) (carried : List String) (e : Sighting × Option ProductId) :
    (l.entry g carried e).1 = ⟨e.1.module,
      if (g.ownerOf e.1.module).tools.supportsModuleAliasing then
        ((l.request? g carried e.1).map (·.replacement)).getD e.1.name
      else e.1.name⟩ := by
  obtain ⟨⟨m, name⟩, p⟩ := e
  unfold entry effect
  cases l.request? g carried ⟨m, name⟩ with
  | none => simp
  | some r =>
    by_cases hkept : r.replacement = name
    · simp [hkept]
    · by_cases htools : (g.ownerOf m).tools.supportsModuleAliasing <;> simp [hkept, htools]

lemma entry_fst (l : Layer) (base : View) (e : Sighting × Option ProductId) :
    (l.entry g base.carried e).1 =
      ⟨e.1.module, relabelledName g l.requests base.sightings e.1⟩ := by
  have hcarried : (g.moduleAt e.1.module).name ∉ base.carried ↔
      ∀ t ∈ base.sightings, t.name ≠ (g.moduleAt e.1.module).name := by
    simp [View.mem_carried]
  have hrequest : (l.request? g base.carried e.1).map (·.replacement) =
      (replacement? l.requests e.1.name).or
        (if e.1.name ≠ (g.moduleAt e.1.module).name ∧
            ∀ t ∈ base.sightings, t.name ≠ (g.moduleAt e.1.module).name then
          replacement? l.requests (g.moduleAt e.1.module).name
        else none) := by
    simp only [request?, find?, replacement?, hcarried]
    cases l.requests.find? _ with
    | some r => rfl
    | none =>
      dsimp only [Option.map_none, Option.none_or]
      split <;> rfl
  rw [entry_eq, hrequest, relabelledName]
  cases replacement? l.requests e.1.name with
  | some name => rfl
  | none =>
    dsimp only [Option.none_or]
    split_ifs <;> rfl

lemma sightings_relabel (l : Layer) (base : View) :
    (l.relabel g base).sightings = relabelled g l.requests base.sightings := by
  ext s
  rw [View.sightings, relabel, List.mem_toFinset, SortedMap.mem_keys_ofList, List.map_map,
    List.mem_map, relabelled, Finset.mem_image]
  refine ⟨?_, ?_⟩
  · rintro ⟨e, he, rfl⟩
    exact ⟨e.1, View.mem_sightings.2 ⟨e.2, he⟩, (l.entry_fst base e).symm⟩
  · rintro ⟨s, hs, rfl⟩
    obtain ⟨p, hp⟩ := View.mem_sightings.1 hs
    exact ⟨(s, p), hp, l.entry_fst base (s, p)⟩

lemma mem_of_request? {l : Layer} {carried : List String} {s : Sighting} {r : AliasRequest}
    (h : l.request? g carried s = some r) : r ∈ l.requests := by
  unfold request? find? at h
  split at h
  · next hfind => exact Option.some.inj h ▸ List.mem_of_find?_eq_some hfind
  · dsimp only at h
    split at h
    · exact List.mem_of_find?_eq_some h
    · cases h

lemma entry_eq_or (l : Layer) (carried : List String) (e : Sighting × Option ProductId) :
    l.entry g carried e = e ∨ ∃ r ∈ l.requests,
      l.entry g carried e = (⟨e.1.module, r.replacement⟩, some l.product) := by
  unfold entry effect
  cases hrequest : l.request? g carried e.1 with
  | none => exact .inl rfl
  | some r =>
    by_cases hkept : r.replacement = e.1.name
    · exact .inl (by simp [hkept])
    · cases htools : (g.ownerOf e.1.module).tools.supportsModuleAliasing with
      | false => exact .inl (by simp [hkept])
      | true => exact .inr ⟨r, mem_of_request? hrequest, by simp [hkept]⟩

lemma tagged_relabel (l : Layer) {base : View} (h : View.Tagged g base) :
    View.Tagged g (l.relabel g base) := by
  intro e he hne
  obtain ⟨e', he', rfl⟩ := List.mem_map.1 (SortedMap.mem_of_mem_ofList he)
  rcases l.entry_eq_or (g := g) base.carried e' with hkept | ⟨r, -, hrenamed⟩
  · rw [hkept] at hne ⊢
    exact h e' he' hne
  · rw [hrenamed]
    rfl

end Layer

lemma relabelled_nil (base : Finset Sighting) : relabelled g [] base = base := by
  have : (fun s : Sighting => (⟨s.module, relabelledName g [] base s⟩ : Sighting)) = id := by
    funext s
    simp [relabelledName, replacement?]
  rw [relabelled, this, Finset.image_id]

/-! ### One settled dependency -/

namespace Survey

lemma getD_screenings (m : ModuleId) (i : Nat) :
    ((g.modules.map (Screening.ofModule g)).getD m {}).requests i = survivors g m i :=
  congrArg (Screening.requests · i) (List.getD_map g.modules {} (Screening.ofModule g))

lemma view_extend (s : Survey) (m n : ModuleId) (v : View) :
    (s.extend m v).view n =
      if m = n ∧ n < s.views.length then (s.view n).merge v else s.view n := by
  simp only [view, extend, List.getD_eq_getElem?_getD, List.getElem?_modify]
  by_cases hn : n < s.views.length
  · by_cases hm : m = n <;> simp [hn, hm]
  · simp [hn]

lemma sightings_base (s : Survey) (d : Dependency) :
    (s.base g d).sightings = (g.targets d).toFinset.biUnion fun n => (s.view n).sightings := by
  rw [base, View.sightings_foldl_merge, View.sightings_empty, Finset.empty_union]

lemma tagged_base {s : Survey} (h : ∀ n, View.Tagged g (s.view n)) (d : Dependency) :
    View.Tagged g (s.base g d) :=
  View.tagged_empty.foldl_merge fun n _ => h n

/-- What a settled dependency brings to the view of its module, given the present views. -/
def bring (g : Graph) (s : Survey) (e : Edge) : Dependency → View
  | .module n => s.base g (.module n)
  | .product p rs =>
    if survivors g e.consumer e.order = [] then s.base g (.product p rs)
    else Layer.relabel g ⟨p, survivors g e.consumer e.order⟩ (s.base g (.product p rs))

lemma views_settle (s : Survey) {e : Edge} {d : Dependency}
    (hd : (g.moduleAt e.consumer).dependencies[e.order]? = some d) :
    (settle g (g.modules.map (Screening.ofModule g)) s e).views =
      (s.extend e.consumer (s.bring g e d)).views := by
  unfold settle
  rw [hd]
  cases d with
  | module n => rfl
  | product p rs =>
    dsimp only [bring]
    rw [getD_screenings]
    cases survivors g e.consumer e.order <;> rfl

lemma sightings_bring (s : Survey) (e : Edge) (d : Dependency) : (s.bring g e d).sightings =
    brought g (fun n => (s.view n).sightings) e.consumer (d, e.order) := by
  cases d with
  | module n => simp [bring, sightings_base, Graph.targets, brought]
  | product p rs =>
    have hbase : (s.base g (.product p rs)).sightings =
        (g.productAt p).modules.toFinset.biUnion fun n => (s.view n).sightings :=
      sightings_base s _
    rw [bring, brought]
    split
    · next hnone => rw [hbase, hnone, relabelled_nil]
    · rw [Layer.sightings_relabel, hbase]

lemma tagged_bring {s : Survey} (h : ∀ n, View.Tagged g (s.view n)) (e : Edge) (d : Dependency) :
    View.Tagged g (s.bring g e d) := by
  cases d with
  | module n => exact tagged_base h _
  | product p rs =>
    rw [bring]
    split
    · exact tagged_base h _
    · exact Layer.tagged_relabel _ (tagged_base h _)

lemma view_settle (s : Survey) {e : Edge} {d : Dependency}
    (hd : (g.moduleAt e.consumer).dependencies[e.order]? = some d) (m : ModuleId) :
    (settle g (g.modules.map (Screening.ofModule g)) s e).view m =
      if e.consumer = m ∧ m < s.views.length then (s.view m).merge (s.bring g e d)
      else s.view m := by
  rw [← view_extend, view, view, views_settle s hd]

lemma mem_sightings_settle (s : Survey) {e : Edge} {d : Dependency}
    (hd : (g.moduleAt e.consumer).dependencies[e.order]? = some d) {m : ModuleId}
    (hm : m < s.views.length) {x : Sighting} :
    x ∈ ((settle g (g.modules.map (Screening.ofModule g)) s e).view m).sightings ↔
      x ∈ (s.view m).sightings ∨ e.consumer = m ∧ x ∈ (s.bring g e d).sightings := by
  rw [view_settle s hd]
  by_cases hc : e.consumer = m
  · rw [if_pos ⟨hc, hm⟩, View.sightings_merge, Finset.mem_union, and_iff_right hc]
  · simp [hc]

lemma tagged_settle {s : Survey} (h : ∀ n, View.Tagged g (s.view n)) {e : Edge} {d : Dependency}
    (hd : (g.moduleAt e.consumer).dependencies[e.order]? = some d) (m : ModuleId) :
    View.Tagged g ((settle g (g.modules.map (Screening.ofModule g)) s e).view m) := by
  rw [view_settle s hd]
  split
  · exact (h m).merge (tagged_bring h e d)
  · exact h m

lemma length_settle (s : Survey) {e : Edge} {d : Dependency}
    (hd : (g.moduleAt e.consumer).dependencies[e.order]? = some d) :
    (settle g (g.modules.map (Screening.ofModule g)) s e).views.length = s.views.length := by
  rw [views_settle s hd, extend, List.length_modify]

/-! ### The order of settling -/

/-- The views hold what the given settled dependencies bring. -/
structure Holds (g : Graph) (es : List Edge) (s : Survey) : Prop where
  length : s.views.length = g.modules.length
  sightings : ∀ m < g.modules.length, ∀ x, x ∈ (s.view m).sightings ↔
    x = ⟨m, (g.moduleAt m).name⟩ ∨ ∃ i d, (⟨m, i⟩ : Edge) ∈ es ∧
      (g.moduleAt m).dependencies[i]? = some d ∧ x ∈ brought g (visible g) m (d, i)
  tagged : ∀ m, View.Tagged g (s.view m)

lemma view_start (g : Graph) (m : ModuleId) :
    (start g).view m = if m < g.modules.length then View.own g m else .empty := by
  by_cases hm : m < g.modules.length <;>
    simp [view, start, Graph.moduleIds, List.getD_eq_getElem?_getD, hm]

lemma holds_start (g : Graph) : Holds g [] (start g) := by
  refine ⟨by simp [start, Graph.moduleIds], fun m hm x => ?_, fun m => ?_⟩
  · rw [view_start, if_pos hm, View.sightings_own, Finset.mem_singleton]
    simp
  · rw [view_start]
    split
    · exact View.tagged_own g m
    · exact View.tagged_empty

lemma Holds.eq_visible {es : List Edge} {s : Survey} (h : Holds g es s) (hg : g.IsClosed)
    (hac : ¬ g.IsCyclic) {m : ModuleId} (hm : g.IsReached m) (hes : Complete g es m) :
    (s.view m).sightings = visible g m := by
  ext x
  rw [h.sightings m (hg.reached_lt hm), mem_visible_iff hg hac hm]
  refine or_congr_right (exists₂_congr fun i d => ?_)
  exact ⟨fun ⟨_, hd, hx⟩ => ⟨hd, hx⟩, fun ⟨hd, hx⟩ => ⟨hes.mem hd, hd, hx⟩⟩

lemma Holds.settle {es : List Edge} {e : Edge} {d : Dependency} {s : Survey} (h : Holds g es s)
    (hg : g.IsClosed) (hac : ¬ g.IsCyclic) (he : g.IsReached e.consumer)
    (hd : (g.moduleAt e.consumer).dependencies[e.order]? = some d)
    (hbehind : ∀ n ∈ g.targets d, Complete g es n) :
    Holds g (es ++ [e]) (settle g (g.modules.map (Screening.ofModule g)) s e) := by
  have hbrought : (s.bring g e d).sightings =
      brought g (visible g) e.consumer (d, e.order) := by
    rw [sightings_bring]
    exact brought_congr fun n hn =>
      h.eq_visible hg hac (he.step (Graph.leads_of_getElem? hd hn)) (hbehind n hn)
  refine ⟨(length_settle s hd).trans h.length, fun m hm x => ?_, tagged_settle h.tagged hd⟩
  rw [mem_sightings_settle s hd (h.length ▸ hm), h.sightings m hm, or_assoc, hbrought]
  exact or_congr_right (exists_settled_concat hd
    (P := fun m i d => x ∈ brought g (visible g) m (d, i))).symm

/-- **Along the order of settling, views hold what the settled dependencies bring.** -/
theorem holds_foldl (hg : g.IsClosed) (hac : ¬ g.IsCyclic) {es : List Edge}
    (hes : Ordered g es) (hreached : ∀ e ∈ es, g.IsReached e.consumer) :
    Holds g es (es.foldl (Survey.settle g (g.modules.map (Screening.ofModule g))) (start g)) := by
  induction hes with
  | nil => exact holds_start g
  | @snoc es e d _ _ hd hbehind ih =>
    rw [List.foldl_append]
    exact (ih fun e' he' => hreached e' (List.mem_append_left _ he')).settle hg hac
      (hreached e (by simp)) hd hbehind

/-! ### The survey of a graph -/

/-- The survey along the walk from all root modules, with the requests that survive screening. -/
abbrev ofGraph (g : Graph) : Survey :=
  ofWalk g (g.modules.map (Screening.ofModule g)) (Walk.ofGraph g)

/-- **The view of a reached module holds what the module sees.** -/
theorem sightings_view (hg : g.IsClosed) (hac : ¬ g.IsCyclic) {m : ModuleId}
    (hm : g.IsReached m) : ((ofGraph g).view m).sightings = visible g m := by
  obtain ⟨hw, hcomplete⟩ := (Walk.ofGraph_cycle hg).2 hac
  exact (holds_foldl hg hac hw.ordered hw.consumer_reached).eq_visible hg hac hm (hcomplete m hm)

theorem tagged_view (hg : g.IsClosed) (hac : ¬ g.IsCyclic) (m : ModuleId) :
    View.Tagged g ((ofGraph g).view m) := by
  obtain ⟨hw, -⟩ := (Walk.ofGraph_cycle hg).2 hac
  exact (holds_foldl hg hac hw.ordered hw.consumer_reached).tagged m

lemma sightings_reach (hg : g.IsClosed) (hac : ¬ g.IsCyclic) :
    ((ofGraph g).reach g).sightings = visibleFromRoots g := by
  rw [reach, View.sightings_foldl_merge, View.sightings_empty, Finset.empty_union,
    visibleFromRoots]
  exact Finset.biUnion_congr rfl fun m hm =>
    sightings_view hg hac (Graph.isReached_root (List.mem_toFinset.1 hm))

lemma tagged_reach (hg : g.IsClosed) (hac : ¬ g.IsCyclic) :
    View.Tagged g ((ofGraph g).reach g) :=
  View.tagged_empty.foldl_merge fun m _ => tagged_view hg hac m

end Survey

end BuildPlanner.Alias
