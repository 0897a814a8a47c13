import BuildPlanner.Proofs.Document.Dependencies

/-!
Which documents describe a graph.
-/

namespace BuildPlanner.Document

/-- The names in a document fit together. -/
structure WellFormed (d : Document) : Prop where
  identified : ∀ p ∈ d.packages, p.identity ≠ ""
  distinct : (d.packages.map fun p => Name.normalize p.identity).Nodup
  consistent : ∀ p ∈ d.packages, p.IsConsistent
  resolved : ∀ p ∈ d.packages, ∀ m ∈ p.modules, ∀ e ∈ m.dependencies, e.Names d.packages p

/-- **A document is accepted exactly if it is well-formed**, and then describes the graph of its
declarations with the dependencies that its entries name. -/
theorem judges_toGraph (d : Document) : Judges d.toGraph d.WellFormed (· = d.graph) := by
  unfold toGraph
  refine ((judges_declarePackages d.packages).bind (Q := ∀ p ∈ d.packages, ∀ m ∈ p.modules,
    ∀ e ∈ m.dependencies, e.Names d.packages p) fun g hdeclared hg => ?_).congr ?_
  · obtain ⟨-, hnodup, hps⟩ := hdeclared
    subst hg
    rw [foldlM_connectPackage]
    have hall := judges_connectModules hnodup hps (List.nil_append (moduleRows d.packages)).symm
    rw [List.map_nil, connect_declared_nil] at hall
    refine hall.congr ⟨fun h p hp m hm => ?_, fun h r hr p hp => ?_⟩
    · obtain ⟨i, hi⟩ := List.mem_iff_getElem?.1 hp
      exact h (m, i) (mem_moduleRows.2 ⟨p, hi, hm⟩) p hi
    · obtain ⟨x, hx, hm⟩ := mem_moduleRows.1 hr
      obtain rfl : x = p := Option.some.inj (hx.symm.trans hp)
      exact h x (List.mem_of_getElem? hp) r.1 hm
  · exact ⟨fun h => ⟨h.1.1, h.1.2.1, h.1.2.2, h.2⟩,
      fun h => ⟨⟨h.identified, h.distinct, h.consistent⟩, h.resolved⟩⟩

lemma DependencyEntry.Names.perm {ps ps' : List PackageEntry} (h : ps.Perm ps')
    {p : PackageEntry} {e : DependencyEntry} (he : e.Names ps p) : e.Names ps' p := by
  refine ⟨he.single, he.module, fun hq => ?_⟩
  obtain ⟨x, hx, hname⟩ := he.product hq
  refine ⟨x, ?_, hname⟩
  unfold DependencyEntry.Vendor at hx ⊢
  split
  · next hown => rwa [if_pos hown] at hx
  · next hown =>
    rw [if_neg hown] at hx
    exact ⟨h.mem_iff.1 hx.1, hx.2⟩

lemma WellFormed.perm {d d' : Document} (h : d.packages.Perm d'.packages) (hd : d.WellFormed) :
    d'.WellFormed where
  identified p hp := hd.identified p (h.mem_iff.2 hp)
  distinct := (h.map _).nodup_iff.1 hd.distinct
  consistent p hp := hd.consistent p (h.mem_iff.2 hp)
  resolved p hp m hm e he := (hd.resolved p (h.mem_iff.2 hp) m hm e he).perm h

/-- **Exactly the well-formed documents describe a graph, in whatever order their packages stand;
no document breaks an expectation of graph assembly.** -/
theorem describes_iff_wellFormed (d : Document) :
    ((∃ g, d.toGraph = .ok g) ↔ d.WellFormed) ∧
      (∀ f, d.toGraph ≠ .error (.fault f)) ∧
      ∀ d' : Document, d.packages.Perm d'.packages →
        ((∃ g, d'.toGraph = .ok g) ↔ ∃ g, d.toGraph = .ok g) := by
  refine ⟨(judges_toGraph d).exists_ok_iff, (judges_toGraph d).ne_fault, fun d' hperm => ?_⟩
  rw [(judges_toGraph d').exists_ok_iff, (judges_toGraph d).exists_ok_iff]
  exact ⟨.perm hperm.symm, .perm hperm⟩

/-- A document whose first package depends on its second one. -/
def forwards : Document where
  packages := [
    { identity := "app", isRoot := true, modules := [
      { name := "App", dependencies := [{ product := "Log", package := "LIB" }] }] },
    { identity := " Lib", modules := [{ name := "Log" }],
      products := [{ name := "Log", modules := ["Log"] }] }]

/-- The dependency may just as well refer backwards. -/
theorem describes_iff_wellFormed_backwards :
    ∃ g, (Document.mk forwards.packages.reverse).toGraph = .ok g :=
  ((describes_iff_wellFormed forwards).2.2 ⟨forwards.packages.reverse⟩
    (List.reverse_perm _).symm).2 ⟨_, rfl⟩

end BuildPlanner.Document
