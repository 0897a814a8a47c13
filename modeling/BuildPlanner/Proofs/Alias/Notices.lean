import BuildPlanner.Proofs.Alias.Reports
import BuildPlanner.Proofs.Alias.Screening
import BuildPlanner.Proofs.Alias.Survey

/-!
What a survey warns about, and which dependencies rename something.

Both are decided when a dependency is settled, by what its requests do to the sightings of its
product, which are complete by then. A survey notes the modules, and the modules with products, that
it has warned of. It warns of each of them once (`Notices.IsRecorded`), and at the end it has warned
of those for which some settled dependency gives cause (`Survey.Warns`).
-/

namespace BuildPlanner.Alias

variable {g : Graph}

/-! ### Definitions -/

/-- The request that applies to a sighting among others: the one for its name, or the one for the
module's own name if nothing is called by that name any more. -/
def applying? (g : Graph) (requests : List AliasRequest) (base : Finset Sighting) (s : Sighting) :
    Option AliasRequest :=
  let own := (g.moduleAt s.module).name
  (requests.find? (·.name = s.name)).or
    (if s.name ≠ own ∧ ∀ t ∈ base, t.name ≠ own then requests.find? (·.name = own) else none)

/-- The request that applies to a sighting asks for another name. -/
def Changes (g : Graph) (requests : List AliasRequest) (base : Finset Sighting) (s : Sighting) :
    Prop :=
  ∃ r, applying? g requests base s = some r ∧ r.replacement ≠ s.name

/-- A dependency renames something that its product shows. -/
def Renames (g : Graph) : Dependency → Prop
  | .module _ => False
  | .product p rs => ∃ s ∈ seenIn g p, Changes g (effective rs) (seenIn g p) s ∧
      (g.ownerOf s.module).tools.supportsModuleAliasing = true

/-- No sighting is called by the name of a request, and modules of that name are only seen under
names that requests ask to replace. -/
def Idle (g : Graph) (requests : List AliasRequest) (base : Finset Sighting) (r : AliasRequest) :
    Prop :=
  (∀ s ∈ base, s.name ≠ r.name) ∧
    ∀ s ∈ base, (g.moduleAt s.module).name = r.name → ∃ r' ∈ requests, r'.name = s.name

/-- The surviving requests on a dependency on a product ask for another name for something that the
product shows. -/
structure Tries (g : Graph) (e : Edge) (p : ProductId) (s : Sighting) : Prop where
  depends : ∃ rs, (g.moduleAt e.consumer).dependencies[e.order]? = some (.product p rs)
  seen : s ∈ seenIn g p
  changes : Changes g (survivors g e.consumer e.order) (seenIn g p) s

/-- A surviving request of a dependency on a product applies to nothing. -/
structure IsUnapplied (g : Graph) (u : Use) (r : AliasRequest) : Prop where
  depends : ∃ rs,
    (g.moduleAt u.edge.consumer).dependencies[u.edge.order]? = some (.product u.product rs)
  survives : r ∈ survivors g u.edge.consumer u.edge.order
  idle : Idle g (survivors g u.edge.consumer u.edge.order) (seenIn g u.product) r

/-- There is nothing about a dependency to warn of: all modules that it is to rename can be
renamed, and each of its requests applies to something. -/
def Quiet (g : Graph) : Dependency → Prop
  | .module _ => True
  | .product p rs =>
    (∀ s ∈ seenIn g p, Changes g (effective rs) (seenIn g p) s →
      (g.ownerOf s.module).tools.supportsModuleAliasing = true ∧
        (g.moduleAt s.module).sources.isSubstitutable = true) ∧
    ∀ r ∈ effective rs, ∃ s ∈ seenIn g p, ∃ r',
      applying? g (effective rs) (seenIn g p) s = some r' ∧ r'.name = r.name

/-! ### Requests that apply -/

section Applying

variable {rs : List AliasRequest} {base : Finset Sighting} {s : Sighting} {r : AliasRequest}

lemma find?_name_eq_none {name : String} :
    rs.find? (·.name = name) = none ↔ ∀ r ∈ rs, r.name ≠ name := by
  simp

lemma exists_find?_name {name : String} (hr : r ∈ rs) (hname : r.name = name) :
    ∃ r', rs.find? (·.name = name) = some r' ∧ r'.name = r.name := by
  obtain ⟨r', hr'⟩ := Option.ne_none_iff_exists'.1 fun hnone =>
    find?_name_eq_none.1 hnone r hr hname
  refine ⟨r', hr', ?_⟩
  rw [hname]
  simpa using List.find?_some hr'

lemma idle_iff (hr : r ∈ rs) : Idle g rs base r ↔
    ∀ s ∈ base, ∀ r', applying? g rs base s = some r' → r'.name ≠ r.name := by
  refine ⟨fun ⟨hunseen, hreplaced⟩ s hs r' hr' hname => ?_, fun h => ?_⟩
  · rcases Option.or_eq_some_iff.1 hr' with hfind | ⟨hnone, hfind⟩
    · have hseen : r'.name = s.name := by simpa using List.find?_some hfind
      exact hunseen s hs (hseen.symm.trans hname)
    · split at hfind
      · have hown : r'.name = (g.moduleAt s.module).name := by simpa using List.find?_some hfind
        obtain ⟨x, hx, hxname⟩ := hreplaced s hs (hown.symm.trans hname)
        exact find?_name_eq_none.1 hnone x hx hxname
      · cases hfind
  · have hunseen : ∀ s ∈ base, s.name ≠ r.name := by
      intro s hs hname
      obtain ⟨x, hx, hxname⟩ := exists_find?_name hr hname.symm
      exact h s hs x (by simp [applying?, hx]) hxname
    refine ⟨hunseen, fun s hs hown => ?_⟩
    by_contra hnone
    push Not at hnone
    obtain ⟨x, hx, hxname⟩ := exists_find?_name hr hown.symm
    have hfree : s.name ≠ (g.moduleAt s.module).name ∧
        ∀ t ∈ base, t.name ≠ (g.moduleAt s.module).name := by
      rw [hown]
      exact ⟨hunseen s hs, hunseen⟩
    refine h s hs x ?_ hxname
    rw [applying?, find?_name_eq_none.2 hnone, Option.none_or]
    exact (if_pos hfree).trans hx

lemma relabelledName_ne_iff : relabelledName g rs base s ≠ s.name ↔
    (g.ownerOf s.module).tools.supportsModuleAliasing = true ∧ Changes g rs base s := by
  unfold relabelledName Changes applying?
  split
  · next htools =>
    rw [and_iff_right htools]
    simp only [replacement?]
    cases rs.find? (·.name = s.name) with
    | some r => simp
    | none =>
      dsimp only [Option.map_none, Option.none_or]
      split
      · cases rs.find? (·.name = (g.moduleAt s.module).name) <;> simp
      · simp
  · next htools => exact iff_of_false (by simp) fun h => htools h.1

end Applying

/-! ### Layers -/

namespace Layer

lemma request?_eq (l : Layer) (base : View) (s : Sighting) :
    l.request? g base.carried s = applying? g l.requests base.sightings s := by
  have hcarried : (g.moduleAt s.module).name ∉ base.carried ↔
      ∀ t ∈ base.sightings, t.name ≠ (g.moduleAt s.module).name := by
    simp [View.mem_carried]
  simp only [request?, find?, applying?, hcarried]
  cases l.requests.find? (·.name = s.name) <;> rfl

lemma effect_spec (l : Layer) (base : View) (s : Sighting) :
    (l.effect g base.carried s = .kept ∧ ¬ Changes g l.requests base.sightings s) ∨
    Changes g l.requests base.sightings s ∧
      (l.effect g base.carried s = .refused ∧
          (g.ownerOf s.module).tools.supportsModuleAliasing = false ∨
        (∃ name, l.effect g base.carried s = .renamed name) ∧
          (g.ownerOf s.module).tools.supportsModuleAliasing = true) := by
  unfold effect Changes
  rw [request?_eq]
  cases applying? g l.requests base.sightings s with
  | none => simp
  | some r =>
    by_cases hkept : r.replacement = s.name
    · simp [hkept]
    · cases htools : (g.ownerOf s.module).tools.supportsModuleAliasing <;> simp [hkept]

lemma renamings_eq_card (l : Layer) (base : View) : l.renamings g base =
    (base.sightings.filter fun s =>
      relabelledName g l.requests base.sightings s ≠ s.name).card := by
  have hcount : l.renamings g base =
      base.keys.countP fun s => relabelledName g l.requests base.sightings s ≠ s.name := by
    rw [SortedMap.keys, List.countP_map]
    refine List.countP_congr fun e _ => ?_
    rw [Function.comp_apply, decide_eq_true_iff, relabelledName_ne_iff]
    rcases l.effect_spec (g := g) base e.1 with ⟨heffect, hkept⟩ | ⟨hchanges, ⟨heffect, hold⟩ |
      ⟨⟨name, heffect⟩, htools⟩⟩
    · simp [heffect, hkept]
    · simp [heffect, hold]
    · simp [heffect, htools, hchanges]
  rw [hcount, List.countP_eq_length_filter,
    ← List.toFinset_card_of_nodup ((SortedMap.nodup_keys base).filter _), List.toFinset_filter]
  exact congrArg Finset.card (Finset.filter_congr fun s _ => decide_eq_true_iff)

lemma renamings_ne_zero {l : Layer} {base : View} : l.renamings g base ≠ 0 ↔
    ∃ s ∈ base.sightings, Changes g l.requests base.sightings s ∧
      (g.ownerOf s.module).tools.supportsModuleAliasing = true := by
  simp only [renamings_eq_card, Finset.card_ne_zero, Finset.filter_nonempty_iff,
    relabelledName_ne_iff, and_comm]

lemma mem_unapplied {l : Layer} {base : View} {r : AliasRequest} :
    r ∈ l.unapplied g base ↔ r ∈ l.requests ∧ Idle g l.requests base.sightings r := by
  simp only [unapplied, List.mem_filter, List.all_eq_true, List.mem_filterMap, request?_eq,
    decide_eq_true_eq]
  refine and_congr_right fun hr => Iff.trans ?_ (idle_iff hr).symm
  simp only [View.mem_sightings]
  refine ⟨fun h s ⟨p, he⟩ r' hr' => h r' ⟨_, he, hr'⟩, ?_⟩
  rintro h r' ⟨⟨s, p⟩, he, hr'⟩
  exact h s ⟨p, he⟩ r' hr'

end Layer

/-! ### Warnings -/

/-- The warning that a module's package is too old for it to be renamed. -/
def refusal (g : Graph) (m : ModuleId) : Diagnostic :=
  .moduleAliasingRequiresTools Version.moduleAliasing.text (g.moduleAt m).name (g.ownerOf m).display

/-- The warning that a module with other sources than Swift is renamed behind a product. -/
def mixture (g : Graph) (x : ModuleId × ProductId) : Diagnostic :=
  .moduleAliasNonSubstitutable (g.moduleAt x.1).name (g.productAt x.2).name (g.vendorOf x.2).display

/-- The warning that a request of a dependency on a product applies to nothing. -/
def idleness (g : Graph) (x : Use × AliasRequest) : Diagnostic :=
  .moduleAliasUnapplied x.2.name x.2.replacement (g.productAt x.1.product).name
    (g.vendorOf x.1.product).display

lemma foldl_iff {σ α : Type} {f : σ → α → σ} {P : σ → Prop} {Q : α → Prop}
    (h : ∀ s a, P (f s a) ↔ P s ∨ Q a) (l : List α) (s : σ) :
    P (l.foldl f s) ↔ P s ∨ ∃ a ∈ l, Q a := by
  induction l generalizing s with
  | nil => simp
  | cons a l ih => rw [List.foldl_cons, ih, h, or_assoc, List.exists_mem_cons_iff]

section Codes

variable {d : Diagnostic} {c : Diagnostic.Code}

lemma filter_concat_of_code_eq (ds : List Diagnostic) (h : d.code = c) :
    (ds ++ [d]).filter (·.code = c) = ds.filter (·.code = c) ++ [d] := by
  simp [h]

lemma filter_concat_of_code_ne (ds : List Diagnostic) (h : d.code ≠ c) :
    (ds ++ [d]).filter (·.code = c) = ds.filter (·.code = c) := by
  simp [h]

end Codes

namespace Notices

variable {n : Notices} {l : Layer} {base : View}

/-- All that is noted was warned of once, in this order. -/
structure IsRecorded (g : Graph) (n : Notices) : Prop where
  refused_nodup : n.refused.Nodup
  refused_log : n.log.filter (·.code = .moduleAliasingRequiresTools) =
    n.refused.reverse.map (refusal g)
  mixed_nodup : n.mixed.Nodup
  mixed_log : n.log.filter (·.code = .moduleAliasNonSubstitutable) =
    n.mixed.reverse.map (mixture g)

lemma isRecorded_empty (g : Graph) : IsRecorded g {} := ⟨.nil, rfl, .nil, rfl⟩

lemma IsRecorded.observe (h : n.IsRecorded g) (l : Layer) (carried : List String) (s : Sighting) :
    (n.observe g l carried s).IsRecorded g := by
  obtain ⟨hrefused, hrefusals, hmixed, hmixtures⟩ := h
  unfold Notices.observe
  dsimp only
  split
  · exact ⟨hrefused, hrefusals, hmixed, hmixtures⟩
  · split
    · exact ⟨hrefused, hrefusals, hmixed, hmixtures⟩
    · next hnew =>
      -- A refusal that is new.
      refine ⟨hrefused.cons hnew, ?_, hmixed, ?_⟩
      · have hcode : (refusal g s.module).code = .moduleAliasingRequiresTools := rfl
        exact (filter_concat_of_code_eq _ hcode).trans (by simp [hrefusals])
      · exact (filter_concat_of_code_ne _ (by simp [Diagnostic.code])).trans hmixtures
  · split
    · exact ⟨hrefused, hrefusals, hmixed, hmixtures⟩
    · next hnew =>
      -- A mixture that is new.
      refine ⟨hrefused, ?_, hmixed.cons (not_or.1 hnew).2, ?_⟩
      · exact (filter_concat_of_code_ne _ (by simp [Diagnostic.code])).trans hrefusals
      · have hcode : (mixture g (s.module, l.product)).code = .moduleAliasNonSubstitutable := rfl
        exact (filter_concat_of_code_eq _ hcode).trans (by simp [hmixtures])

lemma mem_refused_observe {s : Sighting} {d : ModuleId} :
    d ∈ (n.observe g l base.carried s).refused ↔ d ∈ n.refused ∨ s.module = d ∧
      Changes g l.requests base.sightings s ∧
        (g.ownerOf s.module).tools.supportsModuleAliasing = false := by
  unfold Notices.observe
  dsimp only
  rcases l.effect_spec (g := g) base s with ⟨heffect, hkept⟩ | ⟨hchanges, ⟨heffect, hold⟩ |
    ⟨⟨name, heffect⟩, htools⟩⟩
  · simp [heffect, hkept]
  · simp only [heffect, hchanges, hold, and_true]
    split
    · next hmem =>
      refine (or_iff_left_of_imp ?_).symm
      rintro rfl
      exact hmem
    · rw [List.mem_cons, or_comm, eq_comm]
  · simp only [heffect, htools, Bool.true_eq_false, and_false, or_false]
    split <;> rfl

lemma mem_mixed_observe {s : Sighting} {x : ModuleId × ProductId} :
    x ∈ (n.observe g l base.carried s).mixed ↔ x ∈ n.mixed ∨ (s.module, l.product) = x ∧
      Changes g l.requests base.sightings s ∧
        (g.ownerOf s.module).tools.supportsModuleAliasing = true ∧
          (g.moduleAt s.module).sources.isSubstitutable = false := by
  unfold Notices.observe
  dsimp only
  rcases l.effect_spec (g := g) base s with ⟨heffect, hkept⟩ | ⟨hchanges, ⟨heffect, hold⟩ |
    ⟨⟨name, heffect⟩, htools⟩⟩
  · -- The sighting keeps its name.
    simp [heffect, hkept]
  · -- The tools of its package are too old.
    simp only [heffect, hold, Bool.false_eq_true, false_and, and_false, or_false]
    split <;> rfl
  · -- It is renamed, and noted if its sources do not allow it.
    simp only [heffect, hchanges, htools, true_and]
    by_cases hsources : (g.moduleAt s.module).sources.isSubstitutable = true
    · simp [hsources]
    · by_cases hmem : (s.module, l.product) ∈ n.mixed
      · simp only [hmem, or_true, if_true]
        refine (or_iff_left_of_imp ?_).symm
        rintro ⟨rfl, -⟩
        exact hmem
      · simp [hmem, hsources, or_comm, eq_comm]

lemma filter_observe (n : Notices) (l : Layer) (carried : List String) (s : Sighting) :
    (n.observe g l carried s).log.filter (·.code = .moduleAliasUnapplied) =
      n.log.filter (·.code = .moduleAliasUnapplied) := by
  unfold Notices.observe
  dsimp only
  split
  · rfl
  · split
    · rfl
    · exact filter_concat_of_code_ne _ (by simp [Diagnostic.code])
  · split
    · rfl
    · exact filter_concat_of_code_ne _ (by simp [Diagnostic.code])

/-! #### A layer -/

/-- The warnings of the requests of a layer that apply to nothing. -/
def unappliedLog (g : Graph) (l : Layer) (base : View) : List Diagnostic :=
  (l.unapplied g base).map fun r =>
    .moduleAliasUnapplied r.name r.replacement (g.productAt l.product).name
      (g.vendorOf l.product).display

lemma filter_unappliedLog (l : Layer) (base : View) (c : Diagnostic.Code) :
    (unappliedLog g l base).filter (·.code = c) =
      if c = .moduleAliasUnapplied then unappliedLog g l base else [] := by
  split
  · next hc =>
    refine List.filter_eq_self.2 fun d hd => ?_
    obtain ⟨r, -, rfl⟩ := List.mem_map.1 hd
    simp [Diagnostic.code, hc]
  · next hc =>
    refine List.filter_eq_nil_iff.2 fun d hd => ?_
    obtain ⟨r, -, rfl⟩ := List.mem_map.1 hd
    simp [Diagnostic.code, Ne.symm hc]

lemma observeAll_eq : n.observeAll g l base =
    { (base.entries.map (·.1)).foldl (observe g l base.carried) n with
      log := ((base.entries.map (·.1)).foldl (observe g l base.carried) n).log ++
        unappliedLog g l base } := rfl

lemma IsRecorded.observeAll (h : n.IsRecorded g) (l : Layer) (base : View) :
    (n.observeAll g l base).IsRecorded g := by
  have hfold : ((base.entries.map (·.1)).foldl (Notices.observe g l base.carried) n).IsRecorded g :=
    List.foldlRecOn _ _ h fun _ h s _ => h.observe l base.carried s
  obtain ⟨hrefused, hrefusals, hmixed, hmixtures⟩ := hfold
  rw [observeAll_eq]
  refine ⟨hrefused, ?_, hmixed, ?_⟩
  · simp [List.filter_append, filter_unappliedLog, hrefusals]
  · simp [List.filter_append, filter_unappliedLog, hmixtures]

lemma mem_sighted {base : View} {s : Sighting} :
    s ∈ base.entries.map (·.1) ↔ s ∈ base.sightings := by
  simp [View.mem_sightings]

lemma mem_refused_observeAll {d : ModuleId} : d ∈ (n.observeAll g l base).refused ↔
    d ∈ n.refused ∨ ∃ s ∈ base.sightings, s.module = d ∧ Changes g l.requests base.sightings s ∧
      (g.ownerOf s.module).tools.supportsModuleAliasing = false := by
  simp only [observeAll_eq, ← mem_sighted]
  exact foldl_iff (P := fun n : Notices => d ∈ n.refused)
    (fun n s => mem_refused_observe (n := n) (s := s)) _ n

lemma mem_mixed_observeAll {x : ModuleId × ProductId} : x ∈ (n.observeAll g l base).mixed ↔
    x ∈ n.mixed ∨ ∃ s ∈ base.sightings, (s.module, l.product) = x ∧
      Changes g l.requests base.sightings s ∧
        (g.ownerOf s.module).tools.supportsModuleAliasing = true ∧
          (g.moduleAt s.module).sources.isSubstitutable = false := by
  simp only [observeAll_eq, ← mem_sighted]
  exact foldl_iff (P := fun n : Notices => x ∈ n.mixed)
    (fun n s => mem_mixed_observe (n := n) (s := s)) _ n

lemma filter_observeAll (n : Notices) (l : Layer) (base : View) :
    (n.observeAll g l base).log.filter (·.code = .moduleAliasUnapplied) =
      n.log.filter (·.code = .moduleAliasUnapplied) ++ unappliedLog g l base := by
  have hfold : ((base.entries.map (·.1)).foldl (observe g l base.carried) n).log.filter
      (·.code = .moduleAliasUnapplied) = n.log.filter (·.code = .moduleAliasUnapplied) := by
    generalize base.entries.map (·.1) = ss
    induction ss generalizing n with
    | nil => rfl
    | cons s ss ih => exact (ih _).trans (filter_observe n l base.carried s)
  rw [observeAll_eq]
  dsimp only
  rw [List.filter_append, hfold, filter_unappliedLog, if_pos rfl]

end Notices

/-! ### The survey -/

namespace Survey

/-- What a survey has warned of and what it holds to rename something, by the dependencies that are
settled. -/
structure Warns (g : Graph) (es : List Edge) (s : Survey) : Prop where
  recorded : s.notices.IsRecorded g
  refused : ∀ d, d ∈ s.notices.refused ↔ (g.ownerOf d).tools.supportsModuleAliasing = false ∧
    ∃ e ∈ es, ∃ p x, Tries g e p x ∧ x.module = d
  mixed : ∀ d p, (d, p) ∈ s.notices.mixed ↔ (g.ownerOf d).tools.supportsModuleAliasing = true ∧
    (g.moduleAt d).sources.isSubstitutable = false ∧ ∃ e ∈ es, ∃ x, Tries g e p x ∧ x.module = d
  unapplied : ∃ xs : List (Use × AliasRequest), xs.Nodup ∧
    (∀ u r, (u, r) ∈ xs ↔ u.edge ∈ es ∧ IsUnapplied g u r) ∧
    s.notices.log.filter (·.code = .moduleAliasUnapplied) = xs.map (idleness g)
  renames : ∀ e, e ∈ s.renamingEdges ↔ e ∈ es ∧
    ∃ p x, Tries g e p x ∧ (g.ownerOf x.module).tools.supportsModuleAliasing = true

lemma warns_start (g : Graph) : Warns g [] (start g) :=
  ⟨Notices.isRecorded_empty g, by simp [start], by simp [start], ⟨[], by simp [start]⟩,
    by simp [start]⟩

/-- What a settled dependency adds to the warnings and to the dependencies that rename. -/
structure Adds (g : Graph) (s s' : Survey) (e : Edge) : Prop where
  recorded : s.notices.IsRecorded g → s'.notices.IsRecorded g
  refused : ∀ d, d ∈ s'.notices.refused ↔ d ∈ s.notices.refused ∨
    (g.ownerOf d).tools.supportsModuleAliasing = false ∧ ∃ p x, Tries g e p x ∧ x.module = d
  mixed : ∀ d p, (d, p) ∈ s'.notices.mixed ↔ (d, p) ∈ s.notices.mixed ∨
    (g.ownerOf d).tools.supportsModuleAliasing = true ∧
      (g.moduleAt d).sources.isSubstitutable = false ∧ ∃ x, Tries g e p x ∧ x.module = d
  unapplied : ∃ xs : List (Use × AliasRequest), xs.Nodup ∧
    (∀ u r, (u, r) ∈ xs ↔ u.edge = e ∧ IsUnapplied g u r) ∧
    s'.notices.log.filter (·.code = .moduleAliasUnapplied) =
      s.notices.log.filter (·.code = .moduleAliasUnapplied) ++ xs.map (idleness g)
  renames : ∀ e', e' ∈ s'.renamingEdges ↔ e' ∈ s.renamingEdges ∨ e' = e ∧
    ∃ p x, Tries g e p x ∧ (g.ownerOf x.module).tools.supportsModuleAliasing = true

lemma adds_extend {s : Survey} {e : Edge} (hnone : survivors g e.consumer e.order = [] ∨
      ∃ n, (g.moduleAt e.consumer).dependencies[e.order]? = some (.module n))
    (m : ModuleId) (v : View) : Adds g s (s.extend m v) e := by
  have htries : ∀ p x, ¬ Tries g e p x := by
    rintro p x ⟨⟨rs, hd⟩, -, hchanges⟩
    rcases hnone with hnone | ⟨n, hn⟩
    · rw [hnone] at hchanges
      simp [Changes, applying?] at hchanges
    · cases hn.symm.trans hd
  have hunapplied : ∀ u r, u.edge = e → ¬ IsUnapplied g u r := by
    rintro u r rfl ⟨⟨rs, hd⟩, hr, -⟩
    rcases hnone with hnone | ⟨n, hn⟩
    · exact absurd hr (by simp [hnone])
    · cases hn.symm.trans hd
  refine ⟨id, ?_, ?_, ⟨[], .nil, fun u r => ?_, by simp [extend]⟩, ?_⟩
  · simp [extend, htries]
  · simp [extend, htries]
  · simpa using hunapplied u r
  · simp [extend, htries]

section SettleLayer

variable {e : Edge} {p : ProductId} {rs : List AliasRequest} {base : View}
  (hd : (g.moduleAt e.consumer).dependencies[e.order]? = some (.product p rs))
  (hbase : base.sightings = seenIn g p)

include hd hbase

lemma tries_iff_of_layer {q : ProductId} {x : Sighting} : Tries g e q x ↔ q = p ∧
    x ∈ base.sightings ∧ Changes g (survivors g e.consumer e.order) base.sightings x := by
  rw [hbase]
  refine ⟨?_, ?_⟩
  · rintro ⟨⟨rs', hd'⟩, hseen, hchanges⟩
    obtain ⟨rfl, -⟩ : p = q ∧ rs = rs' := by simpa using hd.symm.trans hd'
    exact ⟨rfl, hseen, hchanges⟩
  · rintro ⟨rfl, hseen, hchanges⟩
    exact ⟨⟨rs, hd⟩, hseen, hchanges⟩

lemma isUnapplied_iff_of_layer {u : Use} {r : AliasRequest} : u.edge = e ∧ IsUnapplied g u r ↔
    u = ⟨e, p⟩ ∧ r ∈ Layer.unapplied g ⟨p, survivors g e.consumer e.order⟩ base := by
  rw [Layer.mem_unapplied, hbase]
  refine ⟨?_, ?_⟩
  · rintro ⟨rfl, ⟨rs', hd'⟩, hsurvives, hidle⟩
    obtain ⟨rfl, -⟩ : p = u.product ∧ rs = rs' := by simpa using hd.symm.trans hd'
    exact ⟨rfl, hsurvives, hidle⟩
  · rintro ⟨rfl, hsurvives, hidle⟩
    exact ⟨rfl, ⟨rs, hd⟩, hsurvives, hidle⟩

lemma renamings_ne_zero_iff_tries :
    Layer.renamings g ⟨p, survivors g e.consumer e.order⟩ base ≠ 0 ↔
      ∃ q x, Tries g e q x ∧ (g.ownerOf x.module).tools.supportsModuleAliasing = true := by
  rw [Layer.renamings_ne_zero]
  simp only [tries_iff_of_layer hd hbase]
  refine ⟨fun ⟨x, hx, hchanges, htools⟩ => ⟨p, x, ⟨rfl, hx, hchanges⟩, htools⟩, ?_⟩
  rintro ⟨q, x, ⟨-, hx, hchanges⟩, htools⟩
  exact ⟨x, hx, hchanges, htools⟩

lemma adds_settleLayer {s : Survey} :
    Adds g s (s.settleLayer g e ⟨p, survivors g e.consumer e.order⟩ base) e := by
  let l : Layer := ⟨p, survivors g e.consumer e.order⟩
  refine ⟨fun h => h.observeAll l base, fun d => ?_, fun d q => ?_,
    ⟨(l.unapplied g base).map fun r => (⟨e, p⟩, r), ?_, fun u r => ?_, ?_⟩, fun e' => ?_⟩
  · -- Modules that are refused.
    refine Notices.mem_refused_observeAll.trans (or_congr_right ?_)
    simp only [tries_iff_of_layer hd hbase]
    refine ⟨?_, ?_⟩
    · rintro ⟨x, hx, rfl, hchanges, hold⟩
      exact ⟨hold, p, x, ⟨rfl, hx, hchanges⟩, rfl⟩
    · rintro ⟨hold, q, x, ⟨-, hx, hchanges⟩, rfl⟩
      exact ⟨x, hx, rfl, hchanges, hold⟩
  · -- Modules with other sources than Swift.
    refine Notices.mem_mixed_observeAll.trans (or_congr_right ?_)
    simp only [tries_iff_of_layer hd hbase]
    refine ⟨?_, ?_⟩
    · rintro ⟨x, hx, heq, hchanges, htools, hsources⟩
      obtain ⟨rfl, rfl⟩ := Prod.mk.inj heq
      exact ⟨htools, hsources, x, ⟨rfl, hx, hchanges⟩, rfl⟩
    · rintro ⟨htools, hsources, x, ⟨rfl, hx, hchanges⟩, rfl⟩
      exact ⟨x, hx, rfl, hchanges, htools, hsources⟩
  · -- Requests that apply to nothing.
    have hnodup : (l.unapplied g base).Nodup :=
      (nodup_survivors e.consumer e.order).sublist List.filter_sublist
    exact hnodup.map fun r r' h => (Prod.mk.inj h).2
  · rw [isUnapplied_iff_of_layer hd hbase, List.mem_map]
    simp only [Prod.mk.injEq, exists_eq_right_right]
    exact and_comm.trans (and_congr_left' eq_comm)
  · refine (Notices.filter_observeAll s.notices l base).trans ?_
    rw [List.map_map]
    rfl
  · -- The dependency, if it renames anything.
    change e' ∈ (if l.renamings g base = 0 then s.renamingEdges else s.renamingEdges ++ [e]) ↔ _
    rw [← renamings_ne_zero_iff_tries hd hbase]
    by_cases hzero : l.renamings g base = 0 <;> simp [l, hzero]

end SettleLayer

/-- A dependency is settled when all behind it are, so that its product shows what it has to. -/
lemma adds_settle {s : Survey} {e : Edge} {d : Dependency}
    (hd : (g.moduleAt e.consumer).dependencies[e.order]? = some d)
    (hsee : ∀ n ∈ g.targets d, (s.view n).sightings = visible g n) :
    Adds g s (settle g (g.modules.map (Screening.ofModule g)) s e) e := by
  unfold settle
  rw [hd]
  cases d with
  | module n => exact adds_extend (.inr ⟨n, hd⟩) _ _
  | product p rs =>
    have hbase : (s.base g (.product p rs)).sightings = seenIn g p := by
      rw [sightings_base]
      exact Finset.biUnion_congr rfl fun n hn => hsee n (List.mem_toFinset.1 hn)
    have hadds := adds_settleLayer (s := s) hd hbase
    dsimp only
    rw [getD_screenings]
    cases hrequests : survivors g e.consumer e.order with
    | nil => exact adds_extend (.inl hrequests) _ _
    | cons r rs' => rwa [hrequests] at hadds

lemma Warns.adds {es : List Edge} {s s' : Survey} {e : Edge} (h : Warns g es s) (hnew : e ∉ es)
    (hadds : Adds g s s' e) : Warns g (es ++ [e]) s' := by
  have hmem (e' : Edge) : e' ∈ es ++ [e] ↔ e' ∈ es ∨ e' = e := by simp
  obtain ⟨xs, hxs, hold, hlog⟩ := h.unapplied
  obtain ⟨ys, hys, hadded, hlog'⟩ := hadds.unapplied
  refine ⟨hadds.recorded h.recorded, fun d => ?_, fun d p => ?_, ⟨xs ++ ys, ?_, fun u r => ?_, ?_⟩,
    fun e' => ?_⟩
  · simp only [hadds.refused, h.refused, hmem, or_and_right, exists_or, exists_eq_left, and_or_left]
  · simp only [hadds.mixed, h.mixed, hmem, or_and_right, exists_or, exists_eq_left, and_or_left]
  · refine hxs.append hys fun ⟨u, r⟩ hx hy => hnew ?_
    rw [← ((hadded u r).1 hy).1]
    exact ((hold u r).1 hx).1
  · rw [List.mem_append, hold, hadded, hmem, or_and_right]
  · rw [hlog', hlog, List.map_append]
  · rw [hadds.renames, h.renames, hmem, or_and_right]
    refine or_congr_right (and_congr_right ?_)
    rintro rfl
    rfl

lemma warns_foldl (hg : g.IsClosed) (hac : ¬ g.IsCyclic) {es : List Edge} (hes : Ordered g es)
    (hreached : ∀ e ∈ es, g.IsReached e.consumer) :
    Warns g es (es.foldl (Survey.settle g (g.modules.map (Screening.ofModule g))) (start g)) := by
  induction hes with
  | nil => exact warns_start g
  | @snoc es e d hordered hnew hd hbehind ih =>
    have hreached' : ∀ e' ∈ es, g.IsReached e'.consumer := fun e' he' =>
      hreached e' (List.mem_append_left _ he')
    have hholds := holds_foldl hg hac hordered hreached'
    rw [List.foldl_append]
    exact (ih hreached').adds hnew (adds_settle hd fun n hn =>
      hholds.eq_visible hg hac ((hreached e (by simp)).step (Graph.leads_of_getElem? hd hn))
        (hbehind n hn))

/-! ### The survey of a graph -/

lemma mem_settled_iff (hg : g.IsClosed) (hac : ¬ g.IsCyclic) {e : Edge} {d : Dependency}
    (hd : (g.moduleAt e.consumer).dependencies[e.order]? = some d) :
    e ∈ (Walk.ofGraph g).settled ↔ g.IsReached e.consumer := by
  obtain ⟨hw, hcomplete⟩ := (Walk.ofGraph_cycle hg).2 hac
  exact ⟨hw.consumer_reached e, fun hm => (hcomplete _ hm).mem hd⟩

/-- **A survey warns of what its settled dependencies give cause for**, once for each cause. -/
theorem warns_ofGraph (hg : g.IsClosed) (hac : ¬ g.IsCyclic) :
    Warns g (Walk.ofGraph g).settled (ofGraph g) := by
  obtain ⟨hw, -⟩ := (Walk.ofGraph_cycle hg).2 hac
  exact warns_foldl hg hac hw.ordered hw.consumer_reached

lemma Warns.log_eq_nil_iff {es : List Edge} {s : Survey} (h : Warns g es s)
    (honly : Only surveyCodes s.notices.log) : s.notices.log = [] ↔ ∀ e ∈ es,
      (∀ p x, Tries g e p x → (g.ownerOf x.module).tools.supportsModuleAliasing = true ∧
        (g.moduleAt x.module).sources.isSubstitutable = true) ∧
      ∀ u r, u.edge = e → ¬ IsUnapplied g u r := by
  obtain ⟨xs, -, hmem, hlog⟩ := h.unapplied
  have hkinds : s.notices.log = [] ↔ s.notices.refused = [] ∧ s.notices.mixed = [] ∧ xs = [] := by
    refine ⟨fun hnil => ?_, ?_⟩
    · have hrefused := h.recorded.refused_log
      have hmixed := h.recorded.mixed_log
      simp_all
    · -- Every report of a survey has one of the three codes.
      rintro ⟨hrefused, hmixed, hxs⟩
      refine List.eq_nil_iff_forall_not_mem.2 fun d hd => ?_
      have hnone : ∀ c ∈ surveyCodes, s.notices.log.filter (·.code = c) = [] := by
        simp only [surveyCodes, List.forall_mem_cons, h.recorded.refused_log,
          h.recorded.mixed_log, hlog, hrefused, hmixed, hxs]
        simp
      exact List.filter_eq_nil_iff.1 (hnone _ (honly d hd)) d hd (by simp)
  simp only [hkinds, List.eq_nil_iff_forall_not_mem, Prod.forall, h.refused, h.mixed, hmem]
  refine ⟨?_, fun hquiet => ⟨?_, ?_, ?_⟩⟩
  · rintro ⟨hrefused, hmixed, hunapplied⟩ e he
    refine ⟨fun p x hx => ?_, ?_⟩
    · have htools : (g.ownerOf x.module).tools.supportsModuleAliasing = true := by
        by_contra hold
        exact hrefused x.module ⟨by simpa using hold, e, he, p, x, hx, rfl⟩
      refine ⟨htools, ?_⟩
      by_contra hsources
      exact hmixed x.module p ⟨htools, by simpa using hsources, e, he, x, hx, rfl⟩
    · rintro u r rfl hu
      exact hunapplied u r ⟨he, hu⟩
  · rintro d ⟨hold, e, he, p, x, hx, rfl⟩
    cases hold.symm.trans ((hquiet e he).1 p x hx).1
  · rintro d p ⟨-, hsources, e, he, x, hx, rfl⟩
    cases hsources.symm.trans ((hquiet e he).1 p x hx).2
  · rintro u r ⟨he, hu⟩
    exact (hquiet _ he).2 u r rfl hu

section Clear

variable {e : Edge} {d : Dependency} (hclear : ∀ m ∈ g.modules, Clear g m.dependencies)
  (hd : (g.moduleAt e.consumer).dependencies[e.order]? = some d)

include hclear hd

lemma tries_iff {p : ProductId} {x : Sighting} : Tries g e p x ↔ ∃ rs, d = .product p rs ∧
    x ∈ seenIn g p ∧ Changes g (effective rs) (seenIn g p) x := by
  have hsurvive := survivors_eq hclear hd
  refine ⟨fun ⟨⟨rs, hd'⟩, hseen, hchanges⟩ => ?_, ?_⟩
  · obtain rfl := Option.some.inj (hd.symm.trans hd')
    rw [hsurvive] at hchanges
    exact ⟨rs, rfl, hseen, hchanges⟩
  · rintro ⟨rs, rfl, hseen, hchanges⟩
    refine ⟨⟨rs, hd⟩, hseen, ?_⟩
    rwa [hsurvive]

lemma renames_iff : Renames g d ↔
    ∃ p x, Tries g e p x ∧ (g.ownerOf x.module).tools.supportsModuleAliasing = true := by
  simp only [tries_iff hclear hd]
  cases d with
  | module n => simp [Renames]
  | product p rs =>
    refine ⟨fun ⟨x, hx, hchanges, htools⟩ => ⟨p, x, ⟨rs, rfl, hx, hchanges⟩, htools⟩, ?_⟩
    rintro ⟨q, x, ⟨rs', heq, hx, hchanges⟩, htools⟩
    obtain ⟨rfl, rfl⟩ := Dependency.product.inj heq
    exact ⟨x, hx, hchanges, htools⟩

lemma quiet_iff : Quiet g d ↔
    (∀ p x, Tries g e p x → (g.ownerOf x.module).tools.supportsModuleAliasing = true ∧
      (g.moduleAt x.module).sources.isSubstitutable = true) ∧
    ∀ u r, u.edge = e → ¬ IsUnapplied g u r := by
  simp only [tries_iff hclear hd]
  cases d with
  | module n =>
    -- No requests, nothing to warn of.
    refine iff_of_true trivial ⟨by simp, ?_⟩
    rintro u r rfl ⟨⟨rs, hd'⟩, -, -⟩
    cases hd.symm.trans hd'
  | product p rs =>
    have hsurvive : survivors g e.consumer e.order = effective rs := survivors_eq hclear hd
    refine and_congr ⟨?_, fun h x hx hchanges => h p x ⟨rs, rfl, hx, hchanges⟩⟩
      ⟨?_, fun h r hr => ?_⟩
    · rintro h q x ⟨rs', heq, hx, hchanges⟩
      obtain ⟨rfl, rfl⟩ := Dependency.product.inj heq
      exact h x hx hchanges
    · rintro h u r rfl ⟨⟨rs', hd'⟩, hr, hidle⟩
      obtain ⟨rfl, -⟩ := Dependency.product.inj (Option.some.inj (hd.symm.trans hd'))
      rw [hsurvive] at hr hidle
      obtain ⟨x, hx, r', hr', hname⟩ := h r hr
      exact (idle_iff hr).1 hidle x hx r' hr' hname
    · -- A request that applies to nothing is one that is warned of.
      by_contra hnone
      push Not at hnone
      refine h ⟨e, p⟩ r rfl ⟨⟨rs, hd⟩, ?_, ?_⟩
      · rwa [hsurvive]
      · rw [hsurvive]
        exact (idle_iff hr).2 hnone

end Clear

/-- **A dependency renames something exactly if its requests apply to what its product shows**, and
there is a warning exactly if there is something to warn of, where all requests are clear. -/
theorem tells_ofGraph (hg : g.IsClosed) (hac : ¬ g.IsCyclic)
    (hclear : ∀ m ∈ g.modules, Clear g m.dependencies) :
    ((ofGraph g).notices.log = [] ↔
      ∀ m, g.IsReached m → ∀ d ∈ (g.moduleAt m).dependencies, Quiet g d) ∧
    ∀ m, g.IsReached m → ∀ i d, (g.moduleAt m).dependencies[i]? = some d →
      (⟨m, i⟩ ∈ (ofGraph g).renamingEdges ↔ Renames g d) := by
  have hwarns := warns_ofGraph hg hac
  refine ⟨?_, fun m hm i d hd => ?_⟩
  · rw [hwarns.log_eq_nil_iff (only_ofWalk g _ _)]
    refine ⟨fun h m hm d hd => ?_, fun h e he => ?_⟩
    · obtain ⟨i, hi⟩ := List.mem_iff_getElem?.1 hd
      exact (quiet_iff (e := ⟨m, i⟩) hclear hi).2 (h _ ((mem_settled_iff hg hac hi).2 hm))
    · -- A settled edge is a dependency of a reached module, and any other has nothing to warn of.
      cases hd : (g.moduleAt e.consumer).dependencies[e.order]? with
      | none =>
        refine ⟨fun p x ⟨⟨rs, hx⟩, _, _⟩ => ?_, ?_⟩
        · cases hd.symm.trans hx
        · rintro u r rfl ⟨⟨rs, hu⟩, -, -⟩
          cases hd.symm.trans hu
      | some d =>
        exact (quiet_iff hclear hd).1 (h _ ((mem_settled_iff hg hac hd).1 he) d
          (List.mem_of_getElem? hd))
  · rw [hwarns.renames, renames_iff (e := ⟨m, i⟩) hclear hd,
      and_iff_right ((mem_settled_iff (e := ⟨m, i⟩) hg hac hd).2 hm)]

end Survey

end BuildPlanner.Alias
