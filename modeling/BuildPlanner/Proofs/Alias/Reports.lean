import BuildPlanner.Alias.Resolution
import BuildPlanner.Proofs.Fault

/-!
Which kinds of diagnostic each part of alias resolution reports.

Screening and the choice of names report errors, the survey reports warnings. None of them is
fatal, and none is about a dependency cycle, so a cycle is reported where one ends the walk and
nowhere else.
-/

namespace BuildPlanner.Alias

open Diagnostic (Code)

variable {g : Graph}

/-- All of the diagnostics are of the given kinds. -/
def Only (codes : List Code) (ds : List Diagnostic) : Prop := ∀ d ∈ ds, d.code ∈ codes

namespace Only

variable {codes : List Code} {ds ds' : List Diagnostic}

lemma nil : Only codes [] := by simp [Only]

lemma append (h : Only codes ds) (h' : Only codes ds') : Only codes (ds ++ ds') := fun d hd =>
  (List.mem_append.1 hd).elim (h d) (h' d)

lemma flatMap {α : Type} {l : List α} {f : α → List Diagnostic} (h : ∀ x ∈ l, Only codes (f x)) :
    Only codes (l.flatMap f) := fun d hd => by
  obtain ⟨x, hx, hd⟩ := List.mem_flatMap.1 hd
  exact h x hx d hd

lemma filter_eq_self {c : Code} (h : Only [c] ds) : ds.filter (·.code = c) = ds :=
  List.filter_eq_self.2 fun d hd => by simpa using h d hd

lemma filter_eq_nil {c : Code} (h : Only codes ds) (hc : c ∉ codes) :
    ds.filter (·.code = c) = [] :=
  List.filter_eq_nil_iff.2 fun d hd => by simpa using ne_of_mem_of_not_mem (h d hd) hc

lemma filter_mem_eq_self (h : Only codes ds) : ds.filter (·.code ∈ codes) = ds :=
  List.filter_eq_self.2 fun d hd => by simpa using h d hd

lemma filter_mem_eq_nil {codes' : List Code} (h : Only codes ds)
    (hcodes : ∀ c ∈ codes, c ∉ codes') : ds.filter (·.code ∈ codes') = [] :=
  List.filter_eq_nil_iff.2 fun d hd => by simpa using hcodes _ (h d hd)

end Only

/-! ### Screening -/

lemma Screening.only_examine {requester : String} {s : Screening} {order : Nat} {p : ProductId}
    {requests : List AliasRequest}
    (h : Only [.moduleAliasInvalid, .moduleAliasAmbiguous] s.log) :
    Only [.moduleAliasInvalid, .moduleAliasAmbiguous]
      (s.examine g requester order p requests).log := by
  have hinvalid : Only [.moduleAliasInvalid, .moduleAliasAmbiguous]
      (invalidNames requester requests) := by
    intro d hd
    obtain ⟨r, -, rfl⟩ := List.mem_map.1 hd
    simp [Diagnostic.code]
  have hclash : ∀ kept : List AliasRequest, Only [.moduleAliasInvalid, .moduleAliasAmbiguous]
      (kept.filterMap (clash? g s.claims p)) := by
    intro kept d hd
    obtain ⟨r, -, hr⟩ := List.mem_filterMap.1 hd
    unfold clash? at hr
    grind [Diagnostic.code]
  unfold examine
  dsimp only
  split
  · exact h.append hinvalid
  · exact h.append (hclash _)

lemma Screening.only_ofModule (g : Graph) (m : Module) :
    Only [.moduleAliasInvalid, .moduleAliasAmbiguous] (ofModule g m).log := by
  unfold ofModule
  refine List.foldlRecOn _ _ (motive := fun s : Screening =>
    Only [.moduleAliasInvalid, .moduleAliasAmbiguous] s.log) .nil fun s hs d _ => ?_
  rcases d with ⟨_ | _, order⟩
  · exact hs
  · exact only_examine hs

lemma Screening.only_ofModules (g : Graph) :
    Only [.moduleAliasInvalid, .moduleAliasAmbiguous]
      ((g.modules.map (ofModule g)).flatMap (·.log)) := by
  refine Only.flatMap fun s hs => ?_
  obtain ⟨m, -, rfl⟩ := List.mem_map.1 hs
  exact only_ofModule g m

/-! ### The survey -/

def surveyCodes : List Code :=
  [.moduleAliasingRequiresTools, .moduleAliasNonSubstitutable, .moduleAliasUnapplied]

lemma Notices.only_observe {l : Layer} {carried : List String} {n : Notices} {s : Sighting}
    (h : Only surveyCodes n.log) : Only surveyCodes (observe g l carried n s).log := by
  unfold observe
  dsimp only
  split
  · exact h
  · split
    · exact h
    · exact h.append fun d hd => by simp_all [surveyCodes, Diagnostic.code]
  · split
    · exact h
    · exact h.append fun d hd => by simp_all [surveyCodes, Diagnostic.code]

lemma Notices.only_observeAll {l : Layer} {base : View} {n : Notices}
    (h : Only surveyCodes n.log) : Only surveyCodes (n.observeAll g l base).log := by
  unfold observeAll
  refine Only.append ?_ fun d hd => ?_
  · exact List.foldlRecOn _ _ (motive := fun n : Notices => Only surveyCodes n.log) h
      fun n hn s _ => only_observe hn
  · obtain ⟨r, -, rfl⟩ := List.mem_map.1 hd
    simp [surveyCodes, Diagnostic.code]

lemma Survey.only_settle {screenings : List Screening} {s : Survey} {e : Edge}
    (h : Only surveyCodes s.notices.log) :
    Only surveyCodes (settle g screenings s e).notices.log := by
  unfold settle
  split
  · exact h
  · exact h
  · dsimp only
    split
    · exact h
    · exact Notices.only_observeAll h

lemma Survey.only_ofWalk (g : Graph) (screenings : List Screening) (w : Walk) :
    Only surveyCodes (ofWalk g screenings w).notices.log :=
  List.foldlRecOn _ _ (motive := fun s : Survey => Only surveyCodes s.notices.log) .nil
    fun _ hs _ _ => only_settle hs

/-! ### Names -/

lemma only_renameConflict {reach : View} {m : ModuleId} {ds : List Diagnostic}
    (h : renameConflict g reach m = .ok ds) : Only [.moduleAliasConflict] ds := by
  obtain ⟨products, -, h⟩ := Fault.bind_eq_ok.1 h
  split at h
  · obtain rfl := Fault.pure_eq_ok.1 h
    simp [Only, Diagnostic.code]
  · obtain rfl := Fault.pure_eq_ok.1 h
    exact .nil

lemma AliasMap.only_add {module : String} {t : AliasMap} {entry : String × String}
    (h : Only [.moduleAliasMapConflict] t.log) :
    Only [.moduleAliasMapConflict] (t.add module entry).log := by
  unfold add
  dsimp only
  split
  · split
    · exact h
    · exact h.append (by simp [Only, Diagnostic.code])
  · split
    · exact h
    · exact h.append (by simp [Only, Diagnostic.code])

lemma AliasMap.only_foldl (module : String) (es : List (String × String)) :
    Only [.moduleAliasMapConflict] (es.foldl (AliasMap.add module) {}).log :=
  List.foldlRecOn _ _ (motive := fun t : AliasMap => Only [.moduleAliasMapConflict] t.log)
    .nil fun _ ht _ _ => AliasMap.only_add ht

lemma only_duplicateProducts (g : Graph) (reached : List ModuleId) (edges : List Edge) :
    Only [.productAliasingRequiresTools, .duplicateProductName]
      (duplicateProducts g reached edges) := by
  refine Only.flatMap fun name _ => ?_
  unfold duplicates
  dsimp only
  split
  · exact .nil
  · refine Only.append ?_ (by simp [Only, Diagnostic.code])
    split
    · intro d hd
      obtain ⟨p, -, rfl⟩ := List.mem_map.1 hd
      simp [Diagnostic.code]
    · exact .nil

end BuildPlanner.Alias
