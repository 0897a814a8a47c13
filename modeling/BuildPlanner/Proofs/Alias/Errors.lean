import BuildPlanner.Proofs.Alias.Resolution
import BuildPlanner.Proofs.Alias.Screening

/-!
What a resolution reports, part by part, and what follows if none of it is an error.
-/

namespace BuildPlanner.Alias

variable {g : Graph} {o : Outcome}

def reachedList (g : Graph) : List ModuleId := ((Survey.ofGraph g).reach g).modules g

/-- What a resolution reports if no cycle is reached. -/
structure Outcome.Reports (g : Graph) (o : Outcome) (conflicts : List (List Diagnostic)) :
    Prop where
  conflicting : (reachedList g).mapM (renameConflict g ((Survey.ofGraph g).reach g)) = .ok conflicts
  log : o.log = (g.modules.map (Screening.ofModule g)).flatMap (·.log) ++
    (Survey.ofGraph g).notices.log ++ conflicts.flatten ++
    (reachedList g).flatMap (fun m => (mapOf g m).log) ++
    duplicateProducts g (reachedList g) (Survey.ofGraph g).renamingEdges

lemma resolve_reports (hg : g.IsClosed) (hac : ¬ g.IsCyclic) (h : resolve g = .ok o) :
    ∃ conflicts, o.Reports g conflicts := by
  have hmaps := mapM_aliasMap hg hac fun m (hm : m ∈ reachedList g) => (mem_reached hg hac).1 hm
  rw [resolve_eq_complete hg hac] at h
  obtain ⟨⟨conflicts, tally⟩, hcounted, h⟩ := Fault.bind_eq_ok.1 h
  obtain ⟨hconflicts, -⟩ := run_countEach_eq_ok_iff.1 hcounted
  obtain ⟨maps, hmaps', h⟩ := Fault.bind_eq_ok.1 h
  obtain rfl := Except.ok.inj (hmaps'.symm.trans hmaps)
  obtain rfl := Fault.pure_eq_ok.1 h
  refine ⟨conflicts, hconflicts, ?_⟩
  have hflat : ((reachedList g).map fun m => (m, mapOf g m)).flatMap (fun x => x.2.log) =
      (reachedList g).flatMap fun m => (mapOf g m).log := by
    rw [List.flatMap_map]
  dsimp only
  rw [hflat]
  rfl

/-- Each part of what a resolution reports has kinds of diagnostic of its own. -/
structure Parts (g : Graph) (conflicts : List (List Diagnostic)) : Prop where
  screened : Only [.moduleAliasInvalid, .moduleAliasAmbiguous]
    ((g.modules.map (Screening.ofModule g)).flatMap (·.log))
  noticed : Only surveyCodes (Survey.ofGraph g).notices.log
  conflicting : Only [.moduleAliasConflict] conflicts.flatten
  mapped : Only [.moduleAliasMapConflict] ((reachedList g).flatMap fun m => (mapOf g m).log)
  duplicates : Only [.productAliasingRequiresTools, .duplicateProductName]
    (duplicateProducts g (reachedList g) (Survey.ofGraph g).renamingEdges)

lemma Outcome.Reports.parts (hg : g.IsClosed) (hac : ¬ g.IsCyclic)
    {conflicts : List (List Diagnostic)} (h : o.Reports g conflicts) : Parts g conflicts where
  screened := Screening.only_ofModules g
  noticed := Survey.only_ofWalk g _ _
  conflicting := by
    obtain ⟨dss, hdss, -, honly⟩ := mapM_renameConflict hg hac (reachedList g)
    obtain rfl := Except.ok.inj (h.conflicting.symm.trans hdss)
    exact honly
  mapped := Only.flatMap fun _ _ => AliasMap.only_foldl _ _
  duplicates := only_duplicateProducts g _ _

lemma exists_resolve (hg : g.IsClosed) : ∃ o, resolve g = .ok o := by
  by_cases hc : g.IsCyclic
  · obtain ⟨c, -, ho⟩ := resolve_eq_cyclic hg hc
    exact ⟨_, ho⟩
  · obtain ⟨o, ho, -⟩ := resolve_of_not_isCyclic hg hc
    exact ⟨o, ho⟩

lemma resolve_of_any {p : Outcome → Bool} (h : (resolve g).toOption.any p = true) :
    ∃ o, resolve g = .ok o ∧ p o = true := by
  obtain ⟨o, ho, hp⟩ := (Option.any_eq_true _ _).1 h
  exact ⟨o, Fault.toOption_eq_some.1 ho, hp⟩

lemma clear_of_resolve (hg : g.IsClosed) (h : resolve g = .ok o)
    (hlog : ∀ d ∈ o.log, d.code.severity ≠ .error) :
    ¬ g.IsCyclic ∧ ∀ m ∈ g.modules, Clear g m.dependencies := by
  have hac : ¬ g.IsCyclic := by
    intro hc
    obtain ⟨c, -, ho⟩ := resolve_eq_cyclic hg hc
    obtain rfl := Except.ok.inj (ho.symm.trans h)
    exact hlog (.dependencyCycle (c.map fun m => (g.moduleAt m).name)) (by simp [cyclic]) rfl
  refine ⟨hac, fun m hm => Screening.log_ofModule.1 ?_⟩
  obtain ⟨conflicts, hreports⟩ := resolve_reports hg hac h
  rw [List.eq_nil_iff_forall_not_mem]
  intro d hd
  have hmem : d ∈ o.log := by
    rw [hreports.log]
    simp only [List.mem_append, List.mem_flatMap, List.mem_map]
    exact .inl (.inl (.inl (.inl ⟨_, ⟨m, hm, rfl⟩, hd⟩)))
  have hcode := Screening.only_ofModule g m d hd
  simp only [List.mem_cons, List.not_mem_nil, or_false] at hcode
  rcases hcode with hcode | hcode <;> exact hlog d hmem (by rw [hcode]; rfl)

end BuildPlanner.Alias
