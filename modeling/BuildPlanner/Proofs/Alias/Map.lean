import BuildPlanner.Proofs.Alias.Names

/-!
What the alias map of a module needs, and what a map without reports holds.

A module needs an entry for itself and for every other module it sees, if they are renamed. The
entry replaces the module's own name, or the least other name under which it is seen where the own
name belongs to another module. If no entry is reported, the map holds exactly the entries needed,
and none is exactly if their keys and values determine each other, in whatever order they come.
-/

namespace BuildPlanner.Alias

variable {g : Graph}

/-! ### Definitions -/

/-- A module is not seen under its own name, which belongs to another module of the view. -/
def GivesWay (g : Graph) (view : Finset Sighting) (d : ModuleId) : Prop :=
  (∃ s ∈ view, s.module ≠ d ∧ (g.moduleAt s.module).name = (g.moduleAt d).name) ∧
    (⟨d, (g.moduleAt d).name⟩ : Sighting) ∉ view

instance (view : Finset Sighting) (d : ModuleId) : Decidable (GivesWay g view d) := by
  unfold GivesWay
  infer_instance

/-- The entry that a map needs for a renamed module, if any. The module is seen among `view`, and
its final name follows from `seen`, which is what the root modules see. -/
def demanded (g : Graph) (seen view : Finset Sighting) (d : ModuleId) : List (String × String) :=
  let final := chosenName g seen d
  if GivesWay g view d then
    if chosenName g view d = final then [] else [(chosenName g view d, final)]
  else [((g.moduleAt d).name, final)]

/-- The entries that the map of `m` needs, its own first. -/
def demandedBy (g : Graph) (seen view : Finset Sighting) (m : ModuleId) :
    List (String × String) :=
  (if (otherNames g seen m).Nonempty then [((g.moduleAt m).name, chosenName g seen m)] else []) ++
    (g.moduleIds.filter fun d =>
      (∃ s ∈ view, s.module = d) ∧ d ≠ m ∧ (otherNames g seen d).Nonempty).flatMap
        (demanded g seen view)

/-! ### Entries needed -/

lemma mem_demanded {seen view : Finset Sighting} {d : ModuleId} {k v : String} :
    (k, v) ∈ demanded g seen view d ↔ v = chosenName g seen d ∧
      (¬ GivesWay g view d ∧ k = (g.moduleAt d).name ∨
        GivesWay g view d ∧ k = chosenName g view d ∧ k ≠ v) := by
  unfold demanded
  by_cases hway : GivesWay g view d
  · by_cases hfinal : chosenName g view d = chosenName g seen d
    · simp [hway, hfinal]
      grind
    · simp [hway, hfinal]
      grind
  · simp [hway, and_comm]

lemma mem_demandedBy {seen view : Finset Sighting} {m : ModuleId}
    (hself : (⟨m, (g.moduleAt m).name⟩ : Sighting) ∈ view)
    (hrange : ∀ s ∈ view, s.module < g.modules.length) {e : String × String} :
    e ∈ demandedBy g seen view m ↔ ∃ d, (∃ name, (⟨d, name⟩ : Sighting) ∈ view) ∧
      (otherNames g seen d).Nonempty ∧ e ∈ demanded g seen view d := by
  have hown : demanded g seen view m = [((g.moduleAt m).name, chosenName g seen m)] := by
    rw [demanded, if_neg fun h => h.2 hself]
  simp only [demandedBy, List.mem_append, List.mem_flatMap, List.mem_filter, decide_eq_true_eq,
    Graph.moduleIds, List.mem_range]
  refine ⟨?_, ?_⟩
  · rintro (h | ⟨d, ⟨-, ⟨s, hs, rfl⟩, -, hne⟩, he⟩)
    · split at h
      · next hne => exact ⟨m, ⟨_, hself⟩, hne, hown ▸ h⟩
      · exact absurd h List.not_mem_nil
    · exact ⟨s.module, ⟨s.name, hs⟩, hne, he⟩
  · rintro ⟨d, ⟨name, hd⟩, hne, he⟩
    -- The entry of `m` itself stands in front of the others.
    by_cases hdm : d = m
    · subst hdm
      rw [if_pos hne, ← hown]
      exact .inl he
    · exact .inr ⟨d, ⟨hrange _ hd, ⟨_, hd, rfl⟩, hdm, hne⟩, he⟩

/-! ### Demands -/

/-- Every module seen in a view is in range. -/
def View.InRange (g : Graph) (v : View) : Prop := ∀ s ∈ v.sightings, s.module < g.modules.length

lemma sharesName_iff {view : View} (h : view.InRange g) {d : ModuleId} :
    sharesName g view d = true ↔ ∃ s ∈ view.sightings,
      s.module ≠ d ∧ (g.moduleAt s.module).name = (g.moduleAt d).name := by
  simp only [sharesName, List.any_eq_true, View.mem_modules, Bool.and_eq_true, decide_eq_true_eq]
  refine ⟨?_, ?_⟩
  · rintro ⟨o, ⟨-, name, hs⟩, hne, hname⟩
    exact ⟨_, hs, hne, hname⟩
  · rintro ⟨s, hs, hne, hname⟩
    exact ⟨s.module, ⟨h s hs, s.name, hs⟩, hne, hname⟩

lemma find?_names {view : View} {d : ModuleId} {name : String}
    (hd : (⟨d, name⟩ : Sighting) ∈ view.sightings)
    (hown : (⟨d, (g.moduleAt d).name⟩ : Sighting) ∉ view.sightings) :
    ∃ p, (view.names d).find? (·.1 ≠ (g.moduleAt d).name) =
      some (chosenName g view.sightings d, p) := by
  have hne : name ≠ (g.moduleAt d).name := by
    rintro rfl
    exact hown hd
  obtain ⟨p, hp⟩ := View.mem_sightings.1 hd
  have hmem : (name, p) ∈ renames g view d := mem_renames.2 ⟨hp, hne⟩
  have hfinal := finalName_eq_chosenName (g := g) view d
  unfold finalName at hfinal
  rw [← List.head?_filter]
  change ∃ p, (renames g view d).head? = _
  cases hrenames : renames g view d with
  | nil =>
    rw [hrenames] at hmem
    exact absurd hmem List.not_mem_nil
  | cons n ns =>
    rw [hrenames] at hfinal
    exact ⟨n.2, by rw [← hfinal, List.head?_cons]⟩

lemma demand_eq {reach view : View} (h : view.InRange g) {d : ModuleId}
    (hd : ∃ name, (⟨d, name⟩ : Sighting) ∈ view.sightings) :
    demand g reach view d = .ok (demanded g reach.sightings view.sightings d) := by
  obtain ⟨name, hname⟩ := hd
  simp only [demand, demanded, finalName_eq_chosenName]
  by_cases hfall : GivesWay g view.sightings d
  · obtain ⟨p, hp⟩ := find?_names hname hfall.2
    have hshares := (sharesName_iff h).2 hfall.1
    have hcontains : view.contains ⟨d, (g.moduleAt d).name⟩ = false := by
      rw [← Bool.not_eq_true, View.contains_iff]
      exact hfall.2
    rw [if_pos hfall, hshares, hcontains, hp]
    rfl
  · have hcond : (!sharesName g view d || view.contains ⟨d, (g.moduleAt d).name⟩) = true := by
      rw [GivesWay, not_and_or, not_not, ← sharesName_iff h, ← View.contains_iff] at hfall
      simpa using hfall
    rw [if_neg hfall, if_pos hcond]

lemma demands_eq {reach view : View} (h : view.InRange g) (m : ModuleId) :
    demands g reach view m = .ok (demandedBy g reach.sightings view.sightings m) := by
  have hothers : (view.modules g).filter (fun d => d ≠ m && isRenamed g reach d) =
      g.moduleIds.filter fun d => (∃ s ∈ view.sightings, s.module = d) ∧ d ≠ m ∧
        (otherNames g reach.sightings d).Nonempty := by
    rw [View.modules, List.filter_filter]
    refine List.filter_congr fun d _ => ?_
    rw [Bool.eq_iff_iff, Bool.and_eq_true, Bool.and_eq_true, isRenamed_iff, View.sees_iff,
      decide_eq_true_eq, decide_eq_true_eq, and_comm]
    refine and_congr_left fun _ => ?_
    refine ⟨?_, ?_⟩
    · rintro ⟨name, hs⟩
      exact ⟨_, hs, rfl⟩
    · rintro ⟨s, hs, rfl⟩
      exact ⟨s.name, hs⟩
  have hdemands : (g.moduleIds.filter fun d => (∃ s ∈ view.sightings, s.module = d) ∧ d ≠ m ∧
        (otherNames g reach.sightings d).Nonempty).mapM (demand g reach view) =
      .ok ((g.moduleIds.filter fun d => (∃ s ∈ view.sightings, s.module = d) ∧ d ≠ m ∧
        (otherNames g reach.sightings d).Nonempty).map
          (demanded g reach.sightings view.sightings)) := by
    refine Fault.mapM_eq_ok_of_forall fun d hd => demand_eq h ?_
    obtain ⟨⟨s, hs, rfl⟩, -⟩ := of_decide_eq_true (List.mem_filter.1 hd).2
    exact ⟨s.name, hs⟩
  simp only [demands, Fault.bind_eq_ok, hothers]
  refine ⟨_, hdemands, ?_⟩
  simp only [isRenamed_iff, finalName_eq_chosenName, Fault.pure_eq_ok]
  rw [demandedBy, List.flatMap_def]

lemma aliasMap_eq {reach view : View} (h : view.InRange g) (m : ModuleId) :
    aliasMap g reach view m = .ok ((demandedBy g reach.sightings view.sightings m).foldl
      (AliasMap.add (g.moduleAt m).name) {}) := by
  rw [aliasMap, demands_eq h]
  rfl

/-! ### Maps without reports -/

namespace AliasMap

lemma get?_add {module : String} {t : AliasMap} {e : String × String}
    (h : (t.add module e).log = []) : t.log = [] ∧
      ∀ k v, (t.add module e).aliases.get? k = some v ↔ t.aliases.get? k = some v ∨ (k, v) = e := by
  obtain ⟨key, value⟩ := e
  unfold add at h ⊢
  dsimp only at h ⊢
  cases hkey : t.aliases.get? key with
  | some old =>
    simp only [hkey] at h ⊢
    by_cases hold : old = value
    · -- The entry is there already.
      rw [if_pos hold] at h ⊢
      refine ⟨h, fun k v => ⟨.inl, ?_⟩⟩
      rintro (hk | he)
      · exact hk
      · obtain ⟨rfl, rfl⟩ := Prod.mk.inj he
        rw [hkey, hold]
    · -- Its key has another value, which is reported.
      rw [if_neg hold] at h
      simp at h
  | none =>
    simp only [hkey] at h ⊢
    cases hfind : t.aliases.entries.find? (·.2 = value) with
    | some other =>
      -- Its value has another key, which is reported.
      rw [hfind] at h
      simp at h
    | none =>
      rw [hfind] at h
      refine ⟨h, fun k v => ?_⟩
      dsimp only
      rw [SortedMap.get?_insertNew, hkey, Option.getD_none]
      by_cases hk : k = key
      · subst hk
        simp [hkey, eq_comm]
      · simp [hk]

/-- **If no entry is reported, the map holds exactly the entries added.** -/
theorem get?_foldl_add {module : String} {es : List (String × String)}
    (h : (es.foldl (add module) {}).log = []) {k v : String} :
    (es.foldl (add module) {}).aliases.get? k = some v ↔ (k, v) ∈ es := by
  induction es using List.reverseRecOn with
  | nil => simp
  | append_singleton es e ih =>
    rw [List.foldl_append] at h ⊢
    obtain ⟨hlog, hget⟩ := get?_add h
    rw [List.foldl_cons, List.foldl_nil, hget, ih hlog, List.mem_append, List.mem_singleton]

/-- Entries whose keys and values determine each other. -/
def Consistent (es : List (String × String)) : Prop :=
  ∀ e ∈ es, ∀ f ∈ es, e.1 = f.1 ↔ e.2 = f.2

lemma consistent_append_singleton {es : List (String × String)} {e : String × String} :
    Consistent (es ++ [e]) ↔ Consistent es ∧ ∀ f ∈ es, f.1 = e.1 ↔ f.2 = e.2 := by
  refine ⟨fun h => ⟨fun x hx y hy => h x (by simp [hx]) y (by simp [hy]),
    fun x hx => h x (by simp [hx]) e (by simp)⟩, fun ⟨hes, he⟩ x hx y hy => ?_⟩
  simp only [List.mem_append, List.mem_singleton] at hx hy
  rcases hx with hx | rfl <;> rcases hy with hy | rfl
  · exact hes x hx y hy
  · exact he x hx
  · exact eq_comm.trans ((he y hy).trans eq_comm)
  · simp

/-- A map that holds consistent entries takes another one without a report exactly if it is
consistent with them. -/
lemma log_add {module : String} {t : AliasMap} {es : List (String × String)}
    (hlog : t.log = []) (hes : Consistent es)
    (hget : ∀ k v, t.aliases.get? k = some v ↔ (k, v) ∈ es) {e : String × String} :
    (t.add module e).log = [] ↔ ∀ f ∈ es, f.1 = e.1 ↔ f.2 = e.2 := by
  obtain ⟨key, value⟩ := e
  unfold add
  dsimp only
  cases hkey : t.aliases.get? key with
  | some old =>
    have hold : (key, old) ∈ es := (hget key old).1 hkey
    by_cases hsame : old = value
    · subst hsame
      simp only [if_true, hlog, true_iff]
      exact fun f hf => hes f hf _ hold
    · simp only [if_neg hsame]
      refine iff_of_false (by simp) fun h => hsame ((h _ hold).1 rfl)
  | none =>
    have hnew : ∀ f ∈ es, f.1 ≠ key := by
      rintro ⟨k, v⟩ hf rfl
      rw [(hget k v).2 hf] at hkey
      cases hkey
    cases hfind : t.aliases.entries.find? (·.2 = value) with
    | some other =>
      have hmem : other ∈ es := by
        rw [← hget, SortedMap.get?_eq_some_iff]
        exact List.mem_of_find?_eq_some hfind
      have hvalue : other.2 = value := by simpa using List.find?_some hfind
      exact iff_of_false (by simp) fun h => hnew other hmem ((h other hmem).2 hvalue)
    | none =>
      refine iff_of_true hlog fun f hf => iff_of_false (hnew f hf) fun hvalue => ?_
      have hmem : f ∈ t.aliases.entries := by
        rw [← SortedMap.get?_eq_some_iff, hget]
        exact hf
      simpa [hvalue] using List.find?_eq_none.1 hfind f hmem

/-- **No entry is reported exactly if keys and values determine each other.** -/
theorem log_foldl_add {module : String} {es : List (String × String)} :
    (es.foldl (add module) {}).log = [] ↔ Consistent es := by
  induction es using List.reverseRecOn with
  | nil => exact iff_of_true rfl (by simp [Consistent])
  | append_singleton es e ih =>
    rw [List.foldl_append, List.foldl_cons, List.foldl_nil, consistent_append_singleton, ← ih]
    refine ⟨fun h => ?_, fun ⟨hlog, he⟩ => ?_⟩
    · have hlog := (get?_add h).1
      exact ⟨hlog, (log_add hlog (ih.1 hlog) fun _ _ => get?_foldl_add hlog).1 h⟩
    · exact (log_add hlog (ih.1 hlog) fun _ _ => get?_foldl_add hlog).2 he

end AliasMap

end BuildPlanner.Alias
