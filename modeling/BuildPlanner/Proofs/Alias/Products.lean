import BuildPlanner.Proofs.Alias.Errors
import BuildPlanner.Proofs.Alias.Notices
import BuildPlanner.Proofs.Graph.Assembly

/-!
When products of equal name are tolerated.

Two packages may both have a product of a name that reached modules depend on if some alias renames
something behind one of these products, and all their packages may have renamed products. Packages
are told apart by identity, which is right where different packages have different identities.
-/

namespace BuildPlanner.Alias

variable {g : Graph}

/-! ### Definitions -/

/-- A module that is reached depends on the product. -/
def IsConsumed (g : Graph) (p : ProductId) : Prop :=
  ∃ m, g.IsReached m ∧ ∃ rs, .product p rs ∈ (g.moduleAt m).dependencies

/-- Products of the name may come from several packages. -/
structure Excused (g : Graph) (name : String) : Prop where
  renamed : ∃ m, g.IsReached m ∧ ∃ p rs, .product p rs ∈ (g.moduleAt m).dependencies ∧
    (g.productAt p).name = name ∧ Renames g (.product p rs)
  supported : ∀ p, IsConsumed g p → (g.productAt p).name = name →
    (g.vendorOf p).tools.supportsProductAliasing = true

/-- Products of equal name come from one package, or may come from several. -/
def Tolerated (g : Graph) : Prop :=
  ∀ p q, IsConsumed g p → IsConsumed g q → (g.productAt p).name = (g.productAt q).name →
    (g.vendorOf p).identity = (g.vendorOf q).identity ∨ Excused g (g.productAt p).name

/-! ### Uses -/

lemma mem_uses {reached : List ModuleId} {u : Use} : u ∈ uses g reached ↔
    u.edge.consumer ∈ reached ∧ ∃ rs,
      (g.moduleAt u.edge.consumer).dependencies[u.edge.order]? = some (.product u.product rs) := by
  simp only [uses, List.mem_flatMap, List.mem_filterMap, List.mem_zipIdx_iff_getElem?]
  refine ⟨?_, ?_⟩
  · rintro ⟨m, hm, ⟨d, i⟩, hd, hu⟩
    cases d with
    | module n => simp at hu
    | product p rs =>
      obtain rfl := Option.some.inj hu
      exact ⟨hm, rs, hd⟩
  · rintro ⟨hm, rs, hd⟩
    exact ⟨_, hm, (.product u.product rs, u.edge.order), hd, rfl⟩

section Vendors

variable {us : List Use} {name : String}

lemma mem_keys_vendors {identity : String} : identity ∈ (vendors g us name).keys ↔
    ∃ u ∈ us, (g.productAt u.product).name = name ∧
      (g.vendorOf u.product).identity = identity := by
  rw [vendors, SortedMap.mem_keys_ofList]
  simp [and_assoc]

lemma length_vendors_lt_two : (vendors g us name).entries.length < 2 ↔
    ∀ u ∈ us, ∀ v ∈ us, (g.productAt u.product).name = name →
      (g.productAt v.product).name = name →
        (g.vendorOf u.product).identity = (g.vendorOf v.product).identity := by
  rw [SortedMap.length_entries_lt_two]
  refine ⟨fun h u hu v hv hname hname' => ?_, fun h j hj k hk => ?_⟩
  · have hj := mem_keys_vendors.2 ⟨u, hu, hname, rfl⟩
    have hk := mem_keys_vendors.2 ⟨v, hv, hname', rfl⟩
    exact h _ hj _ hk
  · obtain ⟨u, hu, hname, rfl⟩ := mem_keys_vendors.1 hj
    obtain ⟨v, hv, hname', rfl⟩ := mem_keys_vendors.1 hk
    exact h u hu v hv hname hname'

lemma exists_use_of_mem_vendors {x : String × PackageId} (hx : x ∈ (vendors g us name).entries) :
    ∃ u ∈ us, (g.productAt u.product).name = name ∧ (g.vendorOf u.product).identity = x.1 ∧
      g.packageAt x.2 = g.vendorOf u.product := by
  obtain ⟨u, hu, rfl⟩ := List.mem_map.1 (SortedMap.mem_of_mem_ofList hx)
  obtain ⟨hu, hname⟩ := List.mem_filter.1 hu
  exact ⟨u, hu, by simpa using hname, rfl, rfl⟩

variable (hids : ∀ u ∈ us, ∀ v ∈ us,
  (g.vendorOf u.product).identity = (g.vendorOf v.product).identity →
    g.vendorOf u.product = g.vendorOf v.product)

include hids

lemma forall_vendors_iff {P : Package → Prop} :
    (∀ x ∈ (vendors g us name).entries, P (g.packageAt x.2)) ↔
      ∀ u ∈ us, (g.productAt u.product).name = name → P (g.vendorOf u.product) := by
  refine ⟨fun h u hu hname => ?_, fun h x hx => ?_⟩
  · obtain ⟨v, hv⟩ := SortedMap.mem_keys.1 (mem_keys_vendors.2 ⟨u, hu, hname, rfl⟩)
    obtain ⟨u', hu', -, hidentity, hpackage⟩ := exists_use_of_mem_vendors hv
    have hentry := h _ hv
    rwa [hpackage, hids u' hu' u hu hidentity] at hentry
  · obtain ⟨u, hu, hname, -, hpackage⟩ := exists_use_of_mem_vendors hx
    rw [hpackage]
    exact h u hu hname

lemma duplicates_eq_nil {edges : List Edge} : duplicates g us edges name = [] ↔
    (∀ u ∈ us, ∀ v ∈ us, (g.productAt u.product).name = name →
      (g.productAt v.product).name = name →
        (g.vendorOf u.product).identity = (g.vendorOf v.product).identity) ∨
    (∃ u ∈ us, (g.productAt u.product).name = name ∧ u.edge ∈ edges) ∧
      ∀ u ∈ us, (g.productAt u.product).name = name →
        (g.vendorOf u.product).tools.supportsProductAliasing = true := by
  have hsupported : (∀ x ∈ (vendors g us name).entries,
        (g.packageAt x.2).tools.supportsProductAliasing = true) ↔
      ∀ u ∈ us, (g.productAt u.product).name = name →
        (g.vendorOf u.product).tools.supportsProductAliasing = true :=
    forall_vendors_iff hids (P := fun x => x.tools.supportsProductAliasing = true)
  rw [← length_vendors_lt_two, ← hsupported]
  unfold duplicates
  dsimp only
  split
  · next hcond =>
    simp only [Bool.or_eq_true, decide_eq_true_eq, Bool.and_eq_true, List.any_eq_true,
      List.all_eq_true, List.contains_iff_mem] at hcond
    exact iff_of_true rfl hcond
  · next hcond =>
    simp only [Bool.or_eq_true, decide_eq_true_eq, Bool.and_eq_true, List.any_eq_true,
      List.all_eq_true, List.contains_iff_mem] at hcond
    exact iff_of_false (by simp) hcond

end Vendors

lemma isConsumed_iff (hg : g.IsClosed) (hac : ¬ g.IsCyclic) {p : ProductId} :
    IsConsumed g p ↔ ∃ u ∈ uses g (reachedList g), u.product = p := by
  refine ⟨?_, ?_⟩
  · rintro ⟨m, hm, rs, hd⟩
    obtain ⟨i, hi⟩ := List.mem_iff_getElem?.1 hd
    exact ⟨⟨⟨m, i⟩, p⟩, mem_uses.2 ⟨(mem_reached hg hac).2 hm, rs, hi⟩, rfl⟩
  · rintro ⟨u, hu, rfl⟩
    obtain ⟨hm, rs, hd⟩ := mem_uses.1 hu
    exact ⟨_, (mem_reached hg hac).1 hm, rs, List.mem_of_getElem? hd⟩

lemma vendorOf_eq (hg : g.IsClosed) (hids : g.IsIdentified) {p q : ProductId}
    (hp : IsConsumed g p) (hq : IsConsumed g q)
    (h : (g.vendorOf p).identity = (g.vendorOf q).identity) : g.vendorOf p = g.vendorOf q := by
  have howner : ∀ p, IsConsumed g p → (g.productAt p).owner < g.packages.length := by
    rintro p ⟨m, -, rs, hd⟩
    exact (hg.2.2 _ (Graph.productAt_mem (hg.product_lt hd))).1
  exact hids.packageAt_eq (howner p hp) (howner q hq) h

lemma exists_renaming_iff (hg : g.IsClosed) (hac : ¬ g.IsCyclic)
    (hclear : ∀ m ∈ g.modules, Clear g m.dependencies) {name : String} :
    (∃ u ∈ uses g (reachedList g), (g.productAt u.product).name = name ∧
        u.edge ∈ (Survey.ofGraph g).renamingEdges) ↔
      ∃ m, g.IsReached m ∧ ∃ p rs, .product p rs ∈ (g.moduleAt m).dependencies ∧
        (g.productAt p).name = name ∧ Renames g (.product p rs) := by
  have hrenames := (Survey.tells_ofGraph hg hac hclear).2
  refine ⟨?_, ?_⟩
  · rintro ⟨⟨⟨m, i⟩, p⟩, hu, hname, hedge⟩
    obtain ⟨hm, rs, hd⟩ := mem_uses.1 hu
    have hm := (mem_reached hg hac).1 hm
    exact ⟨m, hm, p, rs, List.mem_of_getElem? hd, hname, (hrenames m hm i _ hd).1 hedge⟩
  · rintro ⟨m, hm, p, rs, hd, hname, hrenamed⟩
    obtain ⟨i, hi⟩ := List.mem_iff_getElem?.1 hd
    exact ⟨⟨⟨m, i⟩, p⟩, mem_uses.2 ⟨(mem_reached hg hac).2 hm, rs, hi⟩, hname,
      (hrenames m hm i _ hi).2 hrenamed⟩

/-- **No product name is reported exactly if all are tolerated.** -/
theorem duplicateProducts_eq_nil (hg : g.IsClosed) (hids : g.IsIdentified) (hac : ¬ g.IsCyclic)
    (hclear : ∀ m ∈ g.modules, Clear g m.dependencies) :
    duplicateProducts g (reachedList g) (Survey.ofGraph g).renamingEdges = [] ↔ Tolerated g := by
  set us := uses g (reachedList g) with hus
  have hconsumed : ∀ {p}, IsConsumed g p ↔ ∃ u ∈ us, u.product = p := isConsumed_iff hg hac
  have hvendor : ∀ u ∈ us, ∀ v ∈ us, (g.vendorOf u.product).identity =
      (g.vendorOf v.product).identity → g.vendorOf u.product = g.vendorOf v.product :=
    fun u hu v hv => vendorOf_eq hg hids (hconsumed.2 ⟨u, hu, rfl⟩) (hconsumed.2 ⟨v, hv, rfl⟩)
  have hexcused : ∀ name, ((∃ u ∈ us, (g.productAt u.product).name = name ∧
        u.edge ∈ (Survey.ofGraph g).renamingEdges) ∧
      ∀ u ∈ us, (g.productAt u.product).name = name →
        (g.vendorOf u.product).tools.supportsProductAliasing = true) ↔ Excused g name := by
    intro name
    rw [exists_renaming_iff hg hac hclear]
    refine ⟨fun ⟨hrenamed, h⟩ => ⟨hrenamed, fun p hp hname => ?_⟩,
      fun ⟨hrenamed, h⟩ => ⟨hrenamed, fun u hu => h _ (hconsumed.2 ⟨u, hu, rfl⟩)⟩⟩
    obtain ⟨u, hu, rfl⟩ := hconsumed.1 hp
    exact h u hu hname
  simp only [duplicateProducts, ← hus, List.flatMap_eq_nil_iff, SortedMap.mem_keys_ofList,
    List.map_map, List.mem_map, forall_exists_index, and_imp, forall_apply_eq_imp_iff₂,
    Function.comp_apply, duplicates_eq_nil hvendor, hexcused]
  refine ⟨fun h p q hp hq hname => ?_, fun h u hu => ?_⟩
  · obtain ⟨u, hu, rfl⟩ := hconsumed.1 hp
    obtain ⟨v, hv, rfl⟩ := hconsumed.1 hq
    exact (h u hu).imp (fun hone => hone u hu v hv rfl hname.symm) id
  · by_cases hexcuse : Excused g (g.productAt u.product).name
    · exact .inr hexcuse
    · refine .inl fun v hv w hw hname hname' => ?_
      refine (h _ _ (hconsumed.2 ⟨v, hv, rfl⟩) (hconsumed.2 ⟨w, hw, rfl⟩)
        (hname.trans hname'.symm)).resolve_right ?_
      rwa [hname]

end BuildPlanner.Alias
