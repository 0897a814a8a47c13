import BuildPlanner.Alias.Resolution
import BuildPlanner.Proofs.Alias.Survey
import BuildPlanner.Proofs.Fault
import Mathlib.Data.Finset.Sort
import Mathlib.Data.String.Basic

/-!
Final names in terms of what is seen from the root modules.

The names of a module in a view are in order, so the first one that is not its own is the least
such name. A module with several of them is reported with all of them in order.
-/

namespace BuildPlanner.Alias

variable {g : Graph}

/-! ### Definitions -/

/-- The names other than its own under which a module is seen. -/
def otherNames (g : Graph) (seen : Finset Sighting) (m : ModuleId) : Finset String :=
  (seen.filter fun s => s.module = m ∧ s.name ≠ (g.moduleAt m).name).image Sighting.name

/-- The least of a module's other names; its own if it has no other. -/
def chosenName (g : Graph) (seen : Finset Sighting) (m : ModuleId) : String :=
  (otherNames g seen m).min.untopD (g.moduleAt m).name

lemma mem_otherNames {seen : Finset Sighting} {m : ModuleId} {name : String} :
    name ∈ otherNames g seen m ↔
      (⟨m, name⟩ : Sighting) ∈ seen ∧ name ≠ (g.moduleAt m).name := by
  simp only [otherNames, Finset.mem_image, Finset.mem_filter]
  refine ⟨?_, ?_⟩
  · rintro ⟨⟨k, old⟩, ⟨hs, rfl, hne⟩, rfl⟩
    exact ⟨hs, hne⟩
  · rintro ⟨hs, hne⟩
    exact ⟨⟨m, name⟩, ⟨hs, rfl, hne⟩, rfl⟩

/-! ### Names in a view -/

lemma compare_eq_lt {a b : String} : compare a b = .lt ↔ a < b := by
  change compareOfLessAndEq a b = .lt ↔ a < b
  unfold compareOfLessAndEq
  split_ifs <;> simp_all

namespace View

lemma mem_names {v : View} {m : ModuleId} {n : String × Option ProductId} :
    n ∈ v.names m ↔ ((⟨m, n.1⟩ : Sighting), n.2) ∈ v.entries := by
  simp only [names, List.mem_map, List.mem_filter, decide_eq_true_eq]
  refine ⟨?_, ?_⟩
  · rintro ⟨⟨⟨k, name⟩, p⟩, ⟨he, rfl⟩, rfl⟩
    exact he
  · intro h
    exact ⟨_, ⟨h, rfl⟩, rfl⟩

lemma pairwise_names (v : View) (m : ModuleId) :
    (v.names m).Pairwise fun a b => a.1 < b.1 := by
  rw [names, List.pairwise_map]
  refine (v.sorted.filter _).imp_of_mem fun {a b} ha hb hab => ?_
  have ham : a.1.module = m := by simpa using (List.mem_filter.1 ha).2
  have hbm : b.1.module = m := by simpa using (List.mem_filter.1 hb).2
  have hlex : (compare a.1.module b.1.module).then (compare a.1.name b.1.name) = .lt := hab
  rw [ham, hbm, Std.compare_self] at hlex
  exact compare_eq_lt.1 hlex

end View

lemma pairwise_renames (reach : View) (m : ModuleId) :
    ((renames g reach m).map Prod.fst).Pairwise (· < ·) := by
  rw [List.pairwise_map]
  exact (reach.pairwise_names m).filter _

lemma mem_renames {reach : View} {m : ModuleId} {n : String × Option ProductId} :
    n ∈ renames g reach m ↔
      ((⟨m, n.1⟩ : Sighting), n.2) ∈ reach.entries ∧ n.1 ≠ (g.moduleAt m).name := by
  simp [renames, View.mem_names]

lemma map_fst_renames (reach : View) (m : ModuleId) :
    (renames g reach m).map Prod.fst = (otherNames g reach.sightings m).sort := by
  have hsort := Finset.sortedLT_sort (otherNames g reach.sightings m)
  refine List.Pairwise.eq_of_mem_iff (pairwise_renames reach m) hsort.pairwise fun name => ?_
  rw [Finset.mem_sort, mem_otherNames, View.mem_sightings, List.mem_map]
  refine ⟨?_, ?_⟩
  · rintro ⟨n, hn, rfl⟩
    obtain ⟨he, hne⟩ := mem_renames.1 hn
    exact ⟨⟨n.2, he⟩, hne⟩
  · rintro ⟨⟨p, hp⟩, hne⟩
    exact ⟨(name, p), mem_renames.2 ⟨hp, hne⟩, rfl⟩

/-! ### Final names -/

lemma finalName_eq_chosenName (reach : View) (m : ModuleId) :
    finalName g reach m = chosenName g reach.sightings m := by
  have hmap := map_fst_renames (g := g) reach m
  have hsorted := pairwise_renames (g := g) reach m
  unfold finalName chosenName
  cases hrenames : renames g reach m with
  | nil =>
    have hempty : otherNames g reach.sightings m = ∅ := by
      rw [hrenames, List.map_nil] at hmap
      rw [← Finset.card_eq_zero, ← Finset.length_sort (· ≤ ·), ← hmap, List.length_nil]
    simp [hempty]
  | cons n ns =>
    rw [hrenames, List.map_cons] at hmap hsorted
    have hmem : ∀ name, name ∈ otherNames g reach.sightings m ↔
        name ∈ n.1 :: ns.map Prod.fst := fun name => by rw [hmap, Finset.mem_sort]
    have hmin : (otherNames g reach.sightings m).min = n.1 := by
      refine le_antisymm (Finset.min_le ((hmem _).2 (by simp))) (Finset.le_min fun name h => ?_)
      rcases List.mem_cons.1 ((hmem name).1 h) with rfl | h
      · exact le_rfl
      · exact WithTop.coe_le_coe.2 (le_of_lt ((List.pairwise_cons.1 hsorted).1 name h))
    simp [hmin]

lemma isRenamed_iff {reach : View} {m : ModuleId} :
    isRenamed g reach m = true ↔ (otherNames g reach.sightings m).Nonempty := by
  have hmap := map_fst_renames (g := g) reach m
  rw [← Finset.card_pos, ← Finset.length_sort (· ≤ ·), ← hmap, List.length_map, isRenamed,
    Bool.not_eq_true', List.isEmpty_eq_false_iff, List.length_pos_iff]

lemma chosenName_of_nonempty {seen : Finset Sighting} {m : ModuleId}
    (h : (otherNames g seen m).Nonempty) : chosenName g seen m ∈ otherNames g seen m := by
  obtain ⟨name, hname⟩ := Finset.min_of_nonempty h
  rw [chosenName, hname]
  exact Finset.mem_of_min hname

lemma chosenName_eq_own_iff {seen : Finset Sighting} {m : ModuleId} :
    chosenName g seen m = (g.moduleAt m).name ↔ otherNames g seen m = ∅ := by
  refine ⟨?_, ?_⟩
  · intro h
    by_contra hne
    have hmem := chosenName_of_nonempty (Finset.nonempty_iff_ne_empty.2 hne)
    exact (mem_otherNames.1 hmem).2 h
  · intro h
    simp [chosenName, h]

/-! ### Conflicts -/

/-- The names and the module that a report of conflicting names is about. -/
def conflict? : Diagnostic → Option (List String × String)
  | .moduleAliasConflict names module _ _ => some (names, module)
  | _ => none

lemma renameConflict_spec {reach : View} (htagged : View.Tagged g reach) (m : ModuleId) :
    ∃ ds, renameConflict g reach m = .ok ds ∧ ds.filterMap conflict? =
      if 2 ≤ (otherNames g reach.sightings m).card then
        [((otherNames g reach.sightings m).sort, (g.moduleAt m).name)]
      else [] := by
  have hmap := map_fst_renames (g := g) reach m
  have hcard : (otherNames g reach.sightings m).card = (renames g reach m).length := by
    rw [← Finset.length_sort (· ≤ ·), ← hmap, List.length_map]
  rw [hcard, ← hmap, renameConflict]
  rw [Fault.mapM_eq_ok_of_forall (l := renames g reach m) (h := fun n => n.2.getD 0)]
  · match renames g reach m with
    | [] => simp
    | [n] => simp
    | n :: n' :: ns => simp [conflict?]
  · intro n hn
    obtain ⟨he, hne⟩ := mem_renames.1 hn
    have hsome : n.2.isSome := htagged _ he hne
    obtain ⟨p, hp⟩ := Option.isSome_iff_exists.1 hsome
    simp [hp]

end BuildPlanner.Alias
