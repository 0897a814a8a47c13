import BuildPlanner.Document.Assembly
import BuildPlanner.Proofs.Graph.Assembly

/-!
The graphs that documents describe are put together by steps of assembly, so what holds of all
assembled graphs holds of them.
-/

namespace BuildPlanner.Document

variable {g g' : Graph} {owner : PackageId} {package : String}

/-! ### Steps and folds -/

@[simp] lemma step_eq_ok {α : Type} {x : Except Fault α} {a : α} : step x = .ok a ↔ x = .ok a := by
  cases x <;> simp [step, Except.mapError]

lemma foldlM_induction {ε σ ι : Type} {P : σ → Prop} {f : σ → ι → Except ε σ} {l : List ι}
    (hf : ∀ s i s', P s → f s i = .ok s' → P s') {s s' : σ} (hs : P s)
    (h : l.foldlM f s = .ok s') : P s' := by
  induction l generalizing s with
  | nil =>
    obtain rfl := Fault.pure_eq_ok.1 h
    exact hs
  | cons i l ih =>
    rw [List.foldlM_cons] at h
    obtain ⟨t, ht, h⟩ := Fault.bind_eq_ok.1 h
    exact ih (hf s i t hs ht) h

/-! ### Declarations -/

lemma assembled_declareModule {m : ModuleEntry} (hg : g.Assembled)
    (h : declareModule owner package g m = .ok g') : g'.Assembled := by
  obtain ⟨found, -, h⟩ := Fault.bind_eq_ok.1 h
  cases found with
  | some x => simp at h
  | none => exact .module hg (step_eq_ok.1 (by simpa using h))

lemma assembled_declareProduct {q : ProductEntry} (hg : g.Assembled)
    (h : declareProduct owner package g q = .ok g') : g'.Assembled := by
  obtain ⟨found, -, h⟩ := Fault.bind_eq_ok.1 h
  cases found with
  | some x => simp at h
  | none =>
    obtain ⟨modules, -, h⟩ : ∃ modules, _ ∧ step (g.addProduct owner q.name q.kind modules) =
        .ok g' := by simpa using h
    exact .product hg (step_eq_ok.1 h)

lemma assembled_declarePackage {p : PackageEntry} (hg : g.Assembled)
    (h : declarePackage g p = .ok g') : g'.Assembled := by
  unfold declarePackage at h
  by_cases hidentity : p.identity = ""
  · simp [hidentity] at h
  · by_cases hfound : (g.findPackage? p.identity).isSome
    · simp [hidentity, hfound] at h
    · simp only [hidentity, hfound, if_false] at h
      obtain ⟨g₁, h₁, h⟩ := Fault.bind_eq_ok.1 h
      obtain ⟨g₂, h₂, h⟩ := Fault.bind_eq_ok.1 h
      have hmodules := foldlM_induction (P := Graph.Assembled)
        (fun _ _ _ => assembled_declareModule) (.package hg (step_eq_ok.1 h₁)) h₂
      exact foldlM_induction (fun _ _ _ => assembled_declareProduct) hmodules h

/-! ### Dependencies -/

lemma lt_of_firstModule {name : String} {ms : List ModuleId} {m : ModuleId}
    (h : g.firstModule name ms = .ok (some m)) : m < g.modules.length := by
  induction ms with
  | nil => cases h
  | cons n ms ih =>
    obtain ⟨x, hx, h⟩ := Fault.bind_eq_ok.1 h
    by_cases hname : x.name = name
    · obtain rfl : n = m := by simpa [hname] using h
      exact Graph.lt_of_module_eq_ok hx
    · exact ih (by simpa [hname] using h)

lemma lt_of_firstProduct {name : String} {ps : List ProductId} {p : ProductId}
    (h : g.firstProduct name ps = .ok (some p)) : p < g.products.length := by
  induction ps with
  | nil => cases h
  | cons q ps ih =>
    obtain ⟨x, hx, h⟩ := Fault.bind_eq_ok.1 h
    by_cases hname : x.name = name
    · obtain rfl : q = p := by simpa [hname] using h
      exact Graph.lt_of_product_eq_ok hx
    · exact ih (by simpa [hname] using h)

lemma danglingFault?_of_resolveDependency {module : String} {e : DependencyEntry} {d : Dependency}
    (h : resolveDependency owner g module e = .ok d) : g.danglingFault? d = none := by
  unfold resolveDependency at h
  split at h
  · cases h
  · split at h
    · unfold moduleDependency at h
      split at h
      · simp at h
      · obtain ⟨found, hfound, h⟩ := Fault.bind_eq_ok.1 h
        cases found with
        | none => simp at h
        | some m =>
          obtain ⟨x, -, hm⟩ := Fault.bind_eq_ok.1 (step_eq_ok.1 hfound)
          obtain rfl := Fault.pure_eq_ok.1 h
          exact Graph.danglingFault?_module.2 (lt_of_firstModule hm)
    · obtain ⟨p, -, h⟩ := Fault.bind_eq_ok.1 h
      obtain ⟨found, hfound, h⟩ := Fault.bind_eq_ok.1 h
      cases found with
      | none => simp at h
      | some q =>
        obtain ⟨x, -, hq⟩ := Fault.bind_eq_ok.1 (step_eq_ok.1 hfound)
        obtain rfl := Fault.pure_eq_ok.1 h
        exact Graph.danglingFault?_product.2 (lt_of_firstProduct hq)

lemma assembled_connectModule {m : ModuleEntry} (hg : g.Assembled)
    (h : connectModule owner g m = .ok g') : g'.Assembled := by
  obtain ⟨found, -, h⟩ := Fault.bind_eq_ok.1 h
  cases found with
  | none => simp at h
  | some consumer =>
    refine foldlM_induction (fun g e g' hg h => ?_) hg h
    obtain ⟨d, hd, h⟩ := Fault.bind_eq_ok.1 h
    exact .dependency hg (danglingFault?_of_resolveDependency hd) (step_eq_ok.1 h)

/-- **The graph of a document is assembled.** -/
theorem assembled_of_toGraph {d : Document} (h : d.toGraph = .ok g) : g.Assembled := by
  obtain ⟨g₁, h₁, h⟩ := Fault.bind_eq_ok.1 h
  have hdeclared := foldlM_induction (P := Graph.Assembled)
    (fun _ _ _ => assembled_declarePackage) .empty h₁
  refine foldlM_induction (fun g p g' hg h => ?_) hdeclared h
  exact foldlM_induction (fun _ _ _ => assembled_connectModule) hg h

end BuildPlanner.Document
