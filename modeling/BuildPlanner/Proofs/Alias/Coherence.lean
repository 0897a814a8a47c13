import BuildPlanner.Proofs.Alias.Products
import BuildPlanner.Proofs.Diagnostic.Engine

/-!
When a resolution reports an error, and when it reports a warning.

There is no error if no cycle is reached, the requests of each module are clear, every module has
at most one name other than its own, the entries of every alias map are consistent and products of
equal name are tolerated. None of these conditions depends on the order in which anything was
declared. Without an error, all that is left to report are the warnings of the survey.
-/

namespace BuildPlanner.Alias

variable {g : Graph} {o : Outcome}

/-- The alias requests of a graph can all be met. -/
structure Coherent (g : Graph) : Prop where
  acyclic : ¬ g.IsCyclic
  clear : ∀ m ∈ g.modules, Clear g m.dependencies
  single : ∀ m, g.IsReached m → (otherNames g (visibleFromRoots g) m).card ≤ 1
  consistent : ∀ m, g.IsReached m →
    AliasMap.Consistent (demandedBy g (visibleFromRoots g) (visible g m) m)
  tolerated : Tolerated g

/-! ### Reports one by one -/

lemma Only.eq_nil_of_calm {codes : List Diagnostic.Code} {ds : List Diagnostic}
    (h : Only codes ds) (hcodes : ∀ c ∈ codes, c.severity = .error)
    (hcalm : ∀ d ∈ ds, d.code.severity ≠ .error) : ds = [] := by
  rw [List.eq_nil_iff_forall_not_mem]
  exact fun d hd => hcalm d hd (hcodes _ (h d hd))

lemma screened_eq_nil (h : ∀ m ∈ g.modules, Clear g m.dependencies) :
    (g.modules.map (Screening.ofModule g)).flatMap (·.log) = [] := by
  rw [List.flatMap_map, List.flatMap_eq_nil_iff]
  exact fun m hm => Screening.log_ofModule.2 (h m hm)

lemma conflicts_eq_nil (hg : g.IsClosed) (hac : ¬ g.IsCyclic)
    {conflicts : List (List Diagnostic)} (h : o.Reports g conflicts) :
    conflicts.flatten = [] ↔
      ∀ m, g.IsReached m → (otherNames g (visibleFromRoots g) m).card ≤ 1 := by
  obtain ⟨dss, hdss, hdue, honly⟩ := mapM_renameConflict hg hac (reachedList g)
  obtain rfl := Except.ok.inj (h.conflicting.symm.trans hdss)
  have hnames : conflicts.flatten = [] ↔ conflicts.flatten.filterMap conflict? = [] := by
    refine ⟨fun hnil => by simp [hnil], fun hnil => ?_⟩
    rw [List.eq_nil_iff_forall_not_mem]
    intro d hd
    have hnone := List.filterMap_eq_nil_iff.1 hnil d hd
    have hcode := honly d hd
    cases d with
    | moduleAliasConflict names module product package => cases hnone
    | _ => simp [Diagnostic.code] at hcode
  rw [hnames, hdue, List.flatMap_eq_nil_iff]
  refine forall_congr' fun m => ?_
  rw [reachedList, mem_reached hg hac, dueConflict]
  refine imp_congr_right fun _ => ?_
  split
  · next hmany => exact iff_of_false (by simp) (by omega)
  · next hfew => exact iff_of_true rfl (by omega)

lemma maps_eq_nil (hg : g.IsClosed) (hac : ¬ g.IsCyclic) :
    (reachedList g).flatMap (fun m => (mapOf g m).log) = [] ↔ ∀ m, g.IsReached m →
      AliasMap.Consistent (demandedBy g (visibleFromRoots g) (visible g m) m) := by
  rw [List.flatMap_eq_nil_iff]
  refine forall_congr' fun m => ?_
  rw [reachedList, mem_reached hg hac, mapOf, AliasMap.log_foldl_add]

lemma exists_error_of_duplicates {us : List Use} {edges : List Edge} {name : String}
    (h : duplicates g us edges name ≠ []) :
    ∃ d ∈ duplicates g us edges name, d.code.severity = .error := by
  unfold duplicates at h ⊢
  dsimp only at h ⊢
  split at h
  · exact absurd rfl h
  · next hmany =>
    rw [if_neg hmany]
    exact ⟨_, List.mem_append_right _ (List.mem_singleton_self _), rfl⟩

lemma products_eq_nil_of_calm {reached : List ModuleId} {edges : List Edge}
    (hcalm : ∀ d ∈ duplicateProducts g reached edges, d.code.severity ≠ .error) :
    duplicateProducts g reached edges = [] := by
  rw [duplicateProducts, List.flatMap_eq_nil_iff]
  intro name hname
  by_contra hne
  obtain ⟨d, hd, herror⟩ := exists_error_of_duplicates hne
  exact hcalm d (List.mem_flatMap.2 ⟨name, hname, hd⟩) herror

/-! ### Errors and warnings -/

lemma Coherent.log_eq (hc : Coherent g) (hg : g.IsClosed) (hids : g.IsIdentified)
    (h : resolve g = .ok o) : o.log = (Survey.ofGraph g).notices.log := by
  obtain ⟨conflicts, hreports⟩ := resolve_reports hg hc.acyclic h
  rw [hreports.log, screened_eq_nil hc.clear, (conflicts_eq_nil hg hc.acyclic hreports).2 hc.single,
    (maps_eq_nil hg hc.acyclic).2 hc.consistent,
    (duplicateProducts_eq_nil hg hids hc.acyclic hc.clear).2 hc.tolerated]
  simp

lemma severity_of_mem_notices {d : Diagnostic} (hd : d ∈ (Survey.ofGraph g).notices.log) :
    d.code.severity = .warning := by
  have hcode := Survey.only_ofWalk g _ _ d hd
  simp only [surveyCodes, List.mem_cons, List.not_mem_nil, or_false] at hcode
  rcases hcode with hcode | hcode | hcode <;> rw [hcode] <;> rfl

/-- **No error is reported exactly if the requests can all be met.** -/
theorem coherent_iff (hg : g.IsClosed) (hids : g.IsIdentified) (h : resolve g = .ok o) :
    (∀ d ∈ o.log, d.code.severity ≠ .error) ↔ Coherent g := by
  refine ⟨fun hcalm => ?_, fun hc d hd herror => ?_⟩
  · obtain ⟨hac, hclear⟩ := clear_of_resolve hg h hcalm
    obtain ⟨conflicts, hreports⟩ := resolve_reports hg hac h
    rw [hreports.log] at hcalm
    simp only [List.mem_append, or_imp, forall_and] at hcalm
    obtain ⟨⟨⟨-, hconflicts⟩, hmaps⟩, hproducts⟩ := hcalm
    have hparts := hreports.parts hg hac
    refine ⟨hac, hclear, (conflicts_eq_nil hg hac hreports).1 ?_, (maps_eq_nil hg hac).1 ?_,
      (duplicateProducts_eq_nil hg hids hac hclear).1 ?_⟩
    · exact hparts.conflicting.eq_nil_of_calm (by decide) hconflicts
    · exact hparts.mapped.eq_nil_of_calm (by decide) hmaps
    · exact products_eq_nil_of_calm hproducts
  · rw [hc.log_eq hg hids h] at hd
    rw [severity_of_mem_notices hd] at herror
    cases herror

/-- **Where there is no error, there is a warning exactly if a dependency gives cause to one.** -/
theorem Coherent.log_eq_nil (hc : Coherent g) (hg : g.IsClosed) (hids : g.IsIdentified)
    (h : resolve g = .ok o) : o.log = [] ↔
      ∀ m, g.IsReached m → ∀ d ∈ (g.moduleAt m).dependencies, Quiet g d := by
  rw [hc.log_eq hg hids h]
  exact (Survey.tells_ofGraph hg hc.acyclic hc.clear).1

/-- What an engine without a past makes of a resolution. -/
theorem hadError_iff (hg : g.IsClosed) (hids : g.IsIdentified) (h : resolve g = .ok o)
    (policy : Diagnostic.Policy) :
    (({ policy } : Diagnostic.Engine).diagnoseAll o.log).hadError = true ↔
      (Coherent g → policy.warningsAsErrors = true ∧ policy.suppressWarnings = false ∧
        ¬ ∀ m, g.IsReached m → ∀ d ∈ (g.moduleAt m).dependencies, Quiet g d) := by
  rw [Diagnostic.Engine.hadError_diagnoseAll_iff]
  by_cases hc : Coherent g
  · have hwarning : ∀ d ∈ o.log, d.code.severity = .warning := fun d hd =>
      severity_of_mem_notices (hc.log_eq hg hids h ▸ hd)
    have hcounts : ∀ d ∈ o.log, policy.countsAsError d = true ↔
        policy.warningsAsErrors = true ∧ policy.suppressWarnings = false := by
      intro d hd
      simp [Diagnostic.Policy.countsAsError, hwarning d hd]
    rw [← hc.log_eq_nil hg hids h, forall_prop_of_true hc]
    refine ⟨?_, ?_⟩
    · rintro (hpast | ⟨d, hd, herror⟩)
      · cases hpast
      · obtain ⟨hw, hs⟩ := (hcounts d hd).1 herror
        exact ⟨hw, hs, List.ne_nil_of_mem hd⟩
    · rintro ⟨hw, hs, hne⟩
      obtain ⟨d, hd⟩ := List.exists_mem_of_ne_nil _ hne
      exact .inr ⟨d, hd, (hcounts d hd).2 ⟨hw, hs⟩⟩
  · have herror : ∃ d ∈ o.log, d.code.severity = .error := by
      by_contra hnone
      push Not at hnone
      exact hc ((coherent_iff hg hids h).1 hnone)
    obtain ⟨d, hd, herror⟩ := herror
    refine iff_of_true (.inr ⟨d, hd, ?_⟩) fun h => absurd h hc
    simp [Diagnostic.Policy.countsAsError, herror]

end BuildPlanner.Alias
