import BuildPlanner.Proofs.Alias.Notices
import BuildPlanner.Proofs.Alias.Resolution

/-!
What resolution counts.

A survey counts the sightings that its layers rename. A name that is not a module's own comes into
a view from another view, or from a layer that gives it to a sighting of the module, which is
counted then. So at every moment there are no more modules under other names than renamed sightings,
however often a module is renamed and wherever it is seen.
-/

namespace BuildPlanner.Alias

variable {g : Graph}

/-! ### Definitions -/

/-- The modules that are seen under another name than their own. -/
def renamedIn (g : Graph) (seen : Finset Sighting) : Finset ModuleId :=
  (seen.filter fun s => s.name ≠ (g.moduleAt s.module).name).image Sighting.module

/-- All sightings in the views of a survey. -/
def Survey.seen (s : Survey) : Finset Sighting :=
  (Finset.range s.views.length).biUnion fun m => (s.view m).sightings

/-! ### Modules under other names -/

section

variable {seen seen' : Finset Sighting} {d : ModuleId}

lemma mem_renamedIn : d ∈ renamedIn g seen ↔ (otherNames g seen d).Nonempty := by
  simp only [renamedIn, Finset.mem_image, Finset.mem_filter, Finset.Nonempty, mem_otherNames]
  refine ⟨?_, ?_⟩
  · rintro ⟨⟨d, name⟩, ⟨hs, hne⟩, rfl⟩
    exact ⟨name, hs, hne⟩
  · rintro ⟨name, hs, hne⟩
    exact ⟨⟨d, name⟩, ⟨hs, hne⟩, rfl⟩

lemma renamedIn_mono (h : seen ⊆ seen') : renamedIn g seen ⊆ renamedIn g seen' :=
  Finset.image_subset_image (Finset.filter_subset_filter _ h)

lemma renamedIn_union : renamedIn g (seen ∪ seen') = renamedIn g seen ∪ renamedIn g seen' := by
  rw [renamedIn, Finset.filter_union, Finset.image_union]
  rfl

lemma renamedIn_relabelled (rs : List AliasRequest) : renamedIn g (relabelled g rs seen) ⊆
    renamedIn g seen ∪
      (seen.filter fun s => relabelledName g rs seen s ≠ s.name).image Sighting.module := by
  intro d hd
  obtain ⟨name, hname⟩ := mem_renamedIn.1 hd
  obtain ⟨hs, hne⟩ := mem_otherNames.1 hname
  obtain ⟨old, hold, rfl⟩ := mem_relabelled.1 hs
  rw [Finset.mem_union]
  by_cases hkept : relabelledName g rs seen ⟨d, old⟩ = old
  · rw [hkept] at hne
    exact .inl (mem_renamedIn.2 ⟨old, mem_otherNames.2 ⟨hold, hne⟩⟩)
  · exact .inr (Finset.mem_image.2 ⟨⟨d, old⟩, Finset.mem_filter.2 ⟨hold, hkept⟩, rfl⟩)

end

/-! ### Along a survey -/

namespace Survey

variable {s : Survey}

lemma mem_seen {x : Sighting} : x ∈ s.seen ↔ ∃ m, x ∈ (s.view m).sightings := by
  simp only [seen, Finset.mem_biUnion, Finset.mem_range]
  refine ⟨fun ⟨m, _, hx⟩ => ⟨m, hx⟩, fun ⟨m, hx⟩ => ⟨m, ?_, hx⟩⟩
  by_contra hm
  simp [view, List.getD_eq_getElem?_getD, List.getElem?_eq_none (not_lt.1 hm)] at hx

lemma sightings_view_subset (m : ModuleId) : (s.view m).sightings ⊆ s.seen :=
  fun _ hx => mem_seen.2 ⟨m, hx⟩

lemma sightings_base_subset (d : Dependency) : (s.base g d).sightings ⊆ s.seen := by
  rw [sightings_base, Finset.biUnion_subset]
  exact fun n _ => sightings_view_subset n

lemma sightings_reach_subset : (s.reach g).sightings ⊆ s.seen := by
  rw [reach, View.sightings_foldl_merge, View.sightings_empty, Finset.empty_union,
    Finset.biUnion_subset]
  exact fun m _ => sightings_view_subset m

lemma seen_extend (m : ModuleId) (v : View) : (s.extend m v).seen ⊆ s.seen ∪ v.sightings := by
  intro x hx
  obtain ⟨n, hx⟩ := mem_seen.1 hx
  rw [view_extend] at hx
  rw [Finset.mem_union]
  split at hx
  · rw [View.sightings_merge, Finset.mem_union] at hx
    exact hx.imp_left fun hx => mem_seen.2 ⟨n, hx⟩
  · exact .inl (mem_seen.2 ⟨n, hx⟩)

lemma renamedIn_seen_start : renamedIn g (start g).seen = ∅ := by
  rw [Finset.eq_empty_iff_forall_notMem]
  intro d hd
  obtain ⟨name, hname⟩ := mem_renamedIn.1 hd
  obtain ⟨hs, hne⟩ := mem_otherNames.1 hname
  obtain ⟨m, hs⟩ := mem_seen.1 hs
  rw [view_start] at hs
  split at hs
  · rw [View.sightings_own, Finset.mem_singleton] at hs
    obtain ⟨rfl, rfl⟩ := Sighting.mk.inj hs
    exact hne rfl
  · exact absurd hs (Finset.notMem_empty _)

lemma renamedIn_extend {v : View} (hv : v.sightings ⊆ s.seen) (m : ModuleId) :
    renamedIn g (s.extend m v).seen ⊆ renamedIn g s.seen :=
  renamedIn_mono ((seen_extend m v).trans (Finset.union_subset Finset.Subset.rfl hv))

/-- A layer brings modules under other names from where they were so before, and by renaming
sightings, which is counted. -/
lemma card_renamedIn_settleLayer (e : Edge) (l : Layer) {base : View}
    (hbase : base.sightings ⊆ s.seen) (h : (renamedIn g s.seen).card ≤ s.renamings) :
    (renamedIn g (s.settleLayer g e l base).seen).card ≤ (s.settleLayer g e l base).renamings := by
  set changed := base.sightings.filter fun x =>
    relabelledName g l.requests base.sightings x ≠ x.name with hchanged
  have hseen : (s.settleLayer g e l base).seen ⊆
      s.seen ∪ relabelled g l.requests base.sightings := by
    rw [← Layer.sightings_relabel l base]
    exact seen_extend e.consumer (l.relabel g base)
  have hrenamed : renamedIn g (s.settleLayer g e l base).seen ⊆
      renamedIn g s.seen ∪ changed.image Sighting.module := by
    refine (renamedIn_mono hseen).trans ?_
    rw [renamedIn_union]
    exact Finset.union_subset Finset.subset_union_left ((renamedIn_relabelled l.requests).trans
      (Finset.union_subset_union_left (renamedIn_mono hbase)))
  calc (renamedIn g (s.settleLayer g e l base).seen).card
      ≤ (renamedIn g s.seen ∪ changed.image Sighting.module).card := Finset.card_le_card hrenamed
    _ ≤ (renamedIn g s.seen).card + changed.card :=
        (Finset.card_union_le _ _).trans (Nat.add_le_add_left Finset.card_image_le _)
    _ ≤ s.renamings + l.renamings g base := by
        rw [Layer.renamings_eq_card]
        exact Nat.add_le_add_right h _

/-- **Settling a dependency counts every module that it brings under another name.** -/
lemma card_renamedIn_settle (screenings : List Screening) (e : Edge)
    (h : (renamedIn g s.seen).card ≤ s.renamings) :
    (renamedIn g (s.settle g screenings e).seen).card ≤ (s.settle g screenings e).renamings := by
  have hextend {v : View} (hv : v.sightings ⊆ s.seen) :
      (renamedIn g (s.extend e.consumer v).seen).card ≤ s.renamings :=
    (Finset.card_le_card (renamedIn_extend hv _)).trans h
  unfold settle
  split
  · exact h
  · exact hextend (sightings_base_subset _)
  · dsimp only
    split
    · exact hextend (sightings_base_subset _)
    · exact card_renamedIn_settleLayer e _ (sightings_base_subset _) h

lemma card_renamedIn_foldl (screenings : List Screening) (es : List Edge)
    (h : (renamedIn g s.seen).card ≤ s.renamings) :
    (renamedIn g (es.foldl (settle g screenings) s).seen).card ≤
      (es.foldl (settle g screenings) s).renamings := by
  induction es generalizing s with
  | nil => exact h
  | cons e es ih => exact ih (card_renamedIn_settle screenings e h)

/-- **A survey shows no more modules under other names than it has renamed sightings.** -/
theorem card_renamedIn_le (screenings : List Screening) (w : Walk) :
    (renamedIn g (ofWalk g screenings w).seen).card ≤ (ofWalk g screenings w).renamings := by
  refine card_renamedIn_foldl screenings w.settled ?_
  rw [renamedIn_seen_start, Finset.card_empty]
  exact Nat.zero_le _

end Survey

/-! ### The counts of an outcome -/

lemma tally_of_complete {screened : List Diagnostic} {s : Survey} {o : Outcome}
    (h : complete g screened s = .ok o) : o.tally = {
      modulesResolved := ((s.reach g).modules g).length
      aliasesApplied := s.renamings
      renamedModules := ((s.reach g).modules g).countP (isRenamed g (s.reach g)) } := by
  obtain ⟨⟨conflicts, tally⟩, hcounted, h⟩ := Fault.bind_eq_ok.1 h
  obtain ⟨maps, -, h⟩ := Fault.bind_eq_ok.1 h
  obtain ⟨-, rfl⟩ := run_countEach_eq_ok_iff.1 hcounted
  rw [← Fault.pure_eq_ok.1 h, Tally.foldl_add]
  simp [Tally.add_def, Tally.sum_toNat]

lemma builds_uncounted (hg : g.IsClosed) (hac : ¬ g.IsCyclic) {o : Outcome}
    (ho : resolve g = .ok o) :
    o.tally.moduleBuilds = 0 ∧ o.tally.hostDuplicates = 0 ∧ o.tally.productBuilds = 0 := by
  rw [resolve_eq_complete hg hac] at ho
  rw [tally_of_complete ho]
  exact ⟨rfl, rfl, rfl⟩

/-- **What resolution counts.** The modules that are reached and those that get another name are
counted once each, and there were at least as many renamings as modules with another name. -/
theorem resolution_counts (hg : g.IsClosed) (hac : ¬ g.IsCyclic) {o : Outcome}
    (ho : resolve g = .ok o) :
    o.tally.modulesResolved = g.moduleIds.countP o.resolution.isReachable ∧
    o.tally.renamedModules = g.moduleIds.countP (o.resolution.isRenamed g) ∧
    o.tally.renamedModules ≤ o.tally.aliasesApplied := by
  have hdecides := decides_of_resolve hg hac ho
  rw [resolve_eq_complete hg hac] at ho
  rw [tally_of_complete ho]
  set s := Survey.ofGraph g
  have hreached {m : ModuleId} : m ∈ (s.reach g).modules g ↔ g.IsReached m := mem_reached hg hac
  have hrenamed {m : ModuleId} : isRenamed g (s.reach g) m = true ↔
      (otherNames g (visibleFromRoots g) m).Nonempty := by
    rw [isRenamed_iff, Survey.sightings_reach hg hac]
  refine ⟨?_, ?_, ?_⟩
  · rw [View.modules, ← List.countP_eq_length_filter]
    refine List.countP_congr fun m hm => ?_
    rw [hdecides.isReachable_iff, ← hreached, View.modules, List.mem_filter, and_iff_right hm]
  · rw [View.modules, List.countP_filter]
    refine List.countP_congr fun m hm => ?_
    rw [hdecides.isRenamed_iff, ← hreached, View.modules, List.mem_filter, and_iff_right hm,
      Bool.and_eq_true, hrenamed, and_comm]
  · have hnodup : ((s.reach g).modules g).Nodup := List.nodup_range.filter _
    calc ((s.reach g).modules g).countP (isRenamed g (s.reach g))
        = (((s.reach g).modules g).filter (isRenamed g (s.reach g))).toFinset.card := by
          rw [List.toFinset_card_of_nodup (hnodup.filter _), List.countP_eq_length_filter]
      _ ≤ (renamedIn g s.seen).card := by
          refine Finset.card_le_card fun m hm => ?_
          have hm : m ∈ renamedIn g (s.reach g).sightings :=
            mem_renamedIn.2 (isRenamed_iff.1 (List.mem_filter.1 (List.mem_toFinset.1 hm)).2)
          exact renamedIn_mono Survey.sightings_reach_subset hm
      _ ≤ s.renamings := Survey.card_renamedIn_le _ _

end BuildPlanner.Alias
