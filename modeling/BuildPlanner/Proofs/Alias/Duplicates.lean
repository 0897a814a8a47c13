import BuildPlanner.Proofs.Alias.Entries
import BuildPlanner.Proofs.Alias.Products
import BuildPlanner.Proofs.Text.Bytes

/-!
Which product names are reported as duplicates, and how.

A name is reported if reached modules depend on products of that name from several packages, unless
one of these dependencies renames something and all the packages may have renamed products. What
counts is what a dependency does to the names that its product shows, so that a request that is not
applied, asks for the name that is there, or is for a module of a package too old for aliases, does
not count. A map by identity holds each package once and in order, which is how they are reported.
-/

namespace BuildPlanner.Alias

open Diagnostic (Code Engine Policy Record)

variable {g : Graph} {o : Outcome}

/-! ### Definitions -/

/-- A dependency of a reached module on a product of the name. -/
structure IsUse (g : Graph) (name : String) (u : Use) : Prop where
  reached : g.IsReached u.edge.consumer
  depends : ∃ rs,
    (g.moduleAt u.edge.consumer).dependencies[u.edge.order]? = some (.product u.product rs)
  named : (g.productAt u.product).name = name

/-- A reached module depends on a product of the name from the package. -/
def Supplies (g : Graph) (name : String) (p : PackageId) : Prop :=
  ∃ u, IsUse g name u ∧ (g.productAt u.product).owner = p

/-- The requests on a dependency change the name of something that its product shows. -/
def Relabels (g : Graph) (u : Use) : Prop :=
  ∃ s ∈ seenIn g u.product,
    relabelledName g (survivors g u.edge.consumer u.edge.order) (seenIn g u.product) s ≠ s.name

/-- Products of the name come from several packages, and no dependency on one of them renames
anything or one of the packages is too old for renamed products. -/
structure IsDuplicate (g : Graph) (name : String) : Prop where
  several : ∃ p q, Supplies g name p ∧ Supplies g name q ∧ p ≠ q
  unresolved : (∀ u, IsUse g name u → ¬ Relabels g u) ∨
    ∃ p, Supplies g name p ∧ (g.packageAt p).tools.before .productAliasing = true

def productCodes : List Code := [.productAliasingRequiresTools, .duplicateProductName]

/-- The diagnostics on a name that products of the given packages have: where aliases are used, a
warning for each package that is too old, and then the error. -/
def duplicateReports (g : Graph) (name : String) (ps : List PackageId) : List Diagnostic :=
  (if isUsed g then
    (ps.filter fun p => (g.packageAt p).tools.before .productAliasing).map fun p =>
      .productAliasingRequiresTools Version.productAliasing.text (g.packageAt p).identity
  else []) ++ [.duplicateProductName name (ps.map fun p => (g.packageAt p).identity)]

def duplicateRecords (g : Graph) (policy : Policy) (name : String) (ps : List PackageId) :
    List Record :=
  (if isUsed g = true ∧ policy.suppressWarnings = false then
    (ps.filter fun p => (g.packageAt p).tools.before .productAliasing).map fun p =>
      ⟨.productAliasingRequiresTools Version.productAliasing.text (g.packageAt p).identity,
        if policy.warningsAsErrors then .error else .warning, false⟩
  else []) ++
    [⟨.duplicateProductName name (ps.map fun p => (g.packageAt p).identity), .error, false⟩]

/-! ### Uses -/

lemma isUse_iff (hg : g.IsClosed) (hac : ¬ g.IsCyclic) {name : String} {u : Use} :
    IsUse g name u ↔ u ∈ uses g (reachedList g) ∧ (g.productAt u.product).name = name := by
  rw [mem_uses, reachedList, mem_reached hg hac]
  exact ⟨fun ⟨hreached, hdepends, hname⟩ => ⟨⟨hreached, hdepends⟩, hname⟩,
    fun ⟨⟨hreached, hdepends⟩, hname⟩ => ⟨hreached, hdepends, hname⟩⟩

lemma IsUse.owner_lt (hg : g.IsClosed) {name : String} {u : Use} (h : IsUse g name u) :
    (g.productAt u.product).owner < g.packages.length := by
  obtain ⟨rs, hd⟩ := h.depends
  exact (hg.2.2 _ (Graph.productAt_mem (hg.product_lt (List.mem_of_getElem? hd)))).1

lemma IsUse.mem_renamingEdges_iff (hg : g.IsClosed) (hac : ¬ g.IsCyclic) {name : String} {u : Use}
    (h : IsUse g name u) : u.edge ∈ (Survey.ofGraph g).renamingEdges ↔ Relabels g u := by
  obtain ⟨rs, hd⟩ := h.depends
  rw [(Survey.warns_ofGraph hg hac).renames,
    and_iff_right ((Survey.mem_settled_iff hg hac hd).2 h.reached)]
  simp only [Relabels, relabelledName_ne_iff]
  refine ⟨?_, fun ⟨s, hs, htools, hchanges⟩ => ⟨_, s, ⟨⟨rs, hd⟩, hs, hchanges⟩, htools⟩⟩
  rintro ⟨p, s, ⟨⟨rs', hd'⟩, hs, hchanges⟩, htools⟩
  obtain ⟨rfl, -⟩ := Dependency.product.inj (Option.some.inj (hd.symm.trans hd'))
  exact ⟨s, hs, htools, hchanges⟩

/-! ### Packages -/

/-- The packages whose products of a name are used, in the order of their identities. -/
def suppliers (g : Graph) (name : String) : List PackageId :=
  (vendors g (uses g (reachedList g)) name).entries.map (·.2)

lemma entries_vendors (name : String) : (vendors g (uses g (reachedList g)) name).entries =
    (suppliers g name).map fun p => ((g.packageAt p).identity, p) := by
  rw [suppliers, List.map_map]
  refine (List.map_id _).symm.trans (List.map_congr_left fun x hx => ?_)
  obtain ⟨u, -, rfl⟩ := List.mem_map.1 (SortedMap.mem_of_mem_ofList hx)
  rfl

lemma pairwise_suppliers (name : String) :
    ((suppliers g name).map fun p => Text.bytes (g.packageAt p).identity).Pairwise (· < ·) := by
  have hsorted := (vendors g (uses g (reachedList g)) name).sorted
  rw [entries_vendors, List.pairwise_map] at hsorted
  rw [List.pairwise_map]
  exact hsorted.imp fun h => Text.bytes_lt_bytes.2 (compare_eq_lt.1 h)

lemma mem_suppliers (hg : g.IsClosed) (hids : g.IsIdentified) (hac : ¬ g.IsCyclic) {name : String}
    {p : PackageId} : p ∈ suppliers g name ↔ Supplies g name p := by
  refine ⟨fun hp => ?_, ?_⟩
  · obtain ⟨x, hx, rfl⟩ := List.mem_map.1 hp
    obtain ⟨u, hu, rfl⟩ := List.mem_map.1 (SortedMap.mem_of_mem_ofList hx)
    obtain ⟨hu, hname⟩ := List.mem_filter.1 hu
    exact ⟨u, (isUse_iff hg hac).2 ⟨hu, by simpa using hname⟩, rfl⟩
  · rintro ⟨u, hu, rfl⟩
    obtain ⟨huse, hname⟩ := (isUse_iff hg hac).1 hu
    obtain ⟨p, hp⟩ := SortedMap.mem_keys.1 (mem_keys_vendors.2 ⟨u, huse, hname, rfl⟩)
    obtain ⟨v, hv, heq⟩ := List.mem_map.1 (SortedMap.mem_of_mem_ofList hp)
    obtain ⟨hv, hname'⟩ := List.mem_filter.1 hv
    obtain ⟨hidentity, rfl⟩ := Prod.mk.inj heq
    have hv' : IsUse g name v := (isUse_iff hg hac).2 ⟨hv, by simpa using hname'⟩
    rw [← hids.eq_of_identity_eq (hv'.owner_lt hg) (hu.owner_lt hg) hidentity]
    exact List.mem_map.2 ⟨_, hp, rfl⟩

/-! ### Names -/

lemma duplicates_eq_of_ne_nil {edges : List Edge} {name : String}
    (h : duplicates g (uses g (reachedList g)) edges name ≠ []) :
    duplicates g (uses g (reachedList g)) edges name =
      duplicateReports g name (suppliers g name) := by
  unfold duplicates at h ⊢
  dsimp only at h ⊢
  split at h
  · exact absurd rfl h
  · next hmany =>
    rw [if_neg hmany, entries_vendors, duplicateReports]
    simp only [List.filter_map, List.map_map, Function.comp_def]
    rfl

/-- Products of one name that are used come from packages of one identity exactly if they come from
one package. -/
lemma forall_identity_iff (hg : g.IsClosed) (hids : g.IsIdentified) (hac : ¬ g.IsCyclic)
    {name : String} :
    (∀ u ∈ uses g (reachedList g), ∀ v ∈ uses g (reachedList g),
      (g.productAt u.product).name = name → (g.productAt v.product).name = name →
        (g.vendorOf u.product).identity = (g.vendorOf v.product).identity) ↔
      ∀ p q, Supplies g name p → Supplies g name q → p = q := by
  refine ⟨?_, fun h u hu v hv hname hname' => ?_⟩
  · rintro h p q ⟨u, hu, rfl⟩ ⟨v, hv, rfl⟩
    obtain ⟨hu', hname⟩ := (isUse_iff hg hac).1 hu
    obtain ⟨hv', hname'⟩ := (isUse_iff hg hac).1 hv
    exact hids.eq_of_identity_eq (hu.owner_lt hg) (hv.owner_lt hg) (h u hu' v hv' hname hname')
  · have howner := h _ _ ⟨u, (isUse_iff hg hac).2 ⟨hu, hname⟩, rfl⟩
      ⟨v, (isUse_iff hg hac).2 ⟨hv, hname'⟩, rfl⟩
    rw [Graph.vendorOf, howner]
    rfl

lemma duplicates_ne_nil_iff (hg : g.IsClosed) (hids : g.IsIdentified) (hac : ¬ g.IsCyclic)
    {name : String} : duplicates g (uses g (reachedList g)) (Survey.ofGraph g).renamingEdges name
      ≠ [] ↔ IsDuplicate g name := by
  have hvendor : ∀ u ∈ uses g (reachedList g), ∀ v ∈ uses g (reachedList g),
      (g.vendorOf u.product).identity = (g.vendorOf v.product).identity →
        g.vendorOf u.product = g.vendorOf v.product := by
    intro u hu v hv
    exact vendorOf_eq hg hids ((isConsumed_iff hg hac).2 ⟨u, hu, rfl⟩)
      ((isConsumed_iff hg hac).2 ⟨v, hv, rfl⟩)
  have hrenaming : (∃ u ∈ uses g (reachedList g), (g.productAt u.product).name = name ∧
      u.edge ∈ (Survey.ofGraph g).renamingEdges) ↔ ∃ u, IsUse g name u ∧ Relabels g u := by
    refine exists_congr fun u => ?_
    rw [← and_assoc, ← isUse_iff hg hac]
    exact and_congr_right fun hu => hu.mem_renamingEdges_iff hg hac
  have hsupported : (∀ u ∈ uses g (reachedList g), (g.productAt u.product).name = name →
      (g.vendorOf u.product).tools.supportsProductAliasing = true) ↔
        ∀ p, Supplies g name p → (g.packageAt p).tools.before .productAliasing = false := by
    simp only [Version.before, Bool.not_eq_false']
    refine ⟨?_, fun h u hu hname => h _ ⟨u, (isUse_iff hg hac).2 ⟨hu, hname⟩, rfl⟩⟩
    rintro h p ⟨u, hu, rfl⟩
    obtain ⟨hu, hname⟩ := (isUse_iff hg hac).1 hu
    exact h u hu hname
  rw [ne_eq, duplicates_eq_nil hvendor, forall_identity_iff hg hids hac, hrenaming, hsupported,
    not_or, not_and_or]
  push Not
  simp only [ne_eq, Bool.not_eq_false]
  exact ⟨fun ⟨hseveral, hunresolved⟩ => ⟨hseveral, hunresolved⟩,
    fun ⟨hseveral, hunresolved⟩ => ⟨hseveral, hunresolved⟩⟩

/-! ### Reports -/

lemma filter_log_productCodes (hg : g.IsClosed) (hac : ¬ g.IsCyclic) (h : resolve g = .ok o) :
    o.log.filter (·.code ∈ productCodes) =
      duplicateProducts g (reachedList g) (Survey.ofGraph g).renamingEdges := by
  obtain ⟨conflicts, hreports⟩ := resolve_reports hg hac h
  have hparts := hreports.parts hg hac
  have hproducts : Only productCodes _ := hparts.duplicates
  rw [hreports.log, List.filter_append, List.filter_append, List.filter_append,
    List.filter_append, hparts.screened.filter_mem_eq_nil (by decide),
    hparts.noticed.filter_mem_eq_nil (by decide), hparts.conflicting.filter_mem_eq_nil (by decide),
    hparts.mapped.filter_mem_eq_nil (by decide), hproducts.filter_mem_eq_self]
  simp

lemma filterMap_verdict_duplicateReports {engine : Engine} (he : engine.hadFatal = false)
    (name : String) (ps : List PackageId) :
    (duplicateReports g name ps).filterMap engine.verdict =
      duplicateRecords g engine.policy name ps := by
  have herror : engine.verdict (.duplicateProductName name
      (ps.map fun p => (g.packageAt p).identity)) = some ⟨_, .error, false⟩ :=
    Engine.verdict_of_error he rfl
  have hwarning (p : PackageId) := Engine.verdict_of_warning he (d := .productAliasingRequiresTools
    Version.productAliasing.text (g.packageAt p).identity) rfl
  rw [duplicateReports, duplicateRecords, List.filterMap_append]
  refine congrArg₂ (· ++ ·) ?_ (by simp [herror])
  cases hused : isUsed g with
  | false => simp
  | true =>
    cases hsuppress : engine.policy.suppressWarnings <;>
      simp [List.filterMap_map, hwarning, hsuppress]

/-- **Product names are reported exactly if they are duplicates**, where no cycle is reached. An
engine that reported nothing fatal before records, for each of these names in turn, one error that
lists the identities of the packages that have used products of the name, each once and in the order
of their bytes. If any dependency asks for aliases and warnings are not suppressed, directly before
it there is one warning for each of these packages that is too old for renamed products. -/
theorem duplicates_reported (hg : g.IsClosed) (hids : g.IsIdentified) (hac : ¬ g.IsCyclic) :
    ∃ o, resolve g = .ok o ∧ ∃ (names : List String) (packages : String → List PackageId),
      (names.map Text.bytes).Pairwise (· < ·) ∧ (∀ name, name ∈ names ↔ IsDuplicate g name) ∧
      (∀ name,
        ((packages name).map fun p => Text.bytes (g.packageAt p).identity).Pairwise (· < ·) ∧
          ∀ p, p ∈ packages name ↔ Supplies g name p) ∧
      ∀ engine : Engine, engine.hadFatal = false →
        ∃ new, (engine.diagnoseAll o.log).emitted = engine.emitted ++ new ∧
          new.filter (·.diagnostic.code ∈ productCodes) =
            names.flatMap fun name => duplicateRecords g engine.policy name (packages name) := by
  obtain ⟨o, ho, hdecides⟩ := resolve_of_not_isCyclic hg hac
  set edges := (Survey.ofGraph g).renamingEdges
  set names : SortedMap String Unit :=
    .ofList ((uses g (reachedList g)).map fun u => ((g.productAt u.product).name, ())) with hnames
  have hreported (name : String) :
      duplicates g (uses g (reachedList g)) edges name ≠ [] ↔ IsDuplicate g name :=
    duplicates_ne_nil_iff hg hids hac
  have hkeys : names.keys.Pairwise fun a b => Text.bytes a < Text.bytes b :=
    names.pairwise_keys.imp fun h => Text.bytes_lt_bytes.2 (compare_eq_lt.1 h)
  have hkey {name : String} (h : IsDuplicate g name) : name ∈ names.keys := by
    obtain ⟨p, -, ⟨u, hu, -⟩, -⟩ := h.several
    obtain ⟨huse, hname⟩ := (isUse_iff hg hac).1 hu
    rw [hnames, SortedMap.mem_keys_ofList]
    simp only [List.map_map, List.mem_map, Function.comp_apply]
    exact ⟨u, huse, hname⟩
  refine ⟨o, ho, names.keys.filter (duplicates g (uses g (reachedList g)) edges · ≠ []),
    suppliers g, List.pairwise_map.2 (hkeys.filter _), fun name => ?_,
    fun name => ⟨pairwise_suppliers name, fun p => mem_suppliers hg hids hac⟩,
    fun engine he => ⟨_, (Engine.diagnoseAll_spec he hdecides.calm).1, ?_⟩⟩
  · rw [List.mem_filter, decide_eq_true_eq, hreported]
    exact and_iff_right_of_imp hkey
  · rw [Engine.filter_filterMap_verdict fun d => d.code ∈ productCodes,
      filter_log_productCodes hg hac ho]
    have hproducts : duplicateProducts g (reachedList g) edges =
        (names.keys.filter (duplicates g (uses g (reachedList g)) edges · ≠ [])).flatMap
          (duplicates g (uses g (reachedList g)) edges) :=
      (flatMap_filter fun name _ hnone => by simpa using hnone).symm
    rw [hproducts, List.filterMap_flatMap]
    refine List.flatMap_congr fun name hname => ?_
    rw [duplicates_eq_of_ne_nil (by simpa using (List.mem_filter.1 hname).2),
      filterMap_verdict_duplicateReports he]

/-- An application that uses products of equal name of two libraries, and asks for the module of one
of them under another name. The other library is too old for renamed products. -/
def rivals : Graph where
  packages := [
    { identity := "app", display := "app", isRoot := true, modules := [0] },
    { identity := "traces", display := "traces", modules := [1], products := [0] },
    { identity := "logs", display := "logs", tools := ⟨[5, 1]⟩, modules := [2], products := [1] }]
  modules := [
    { name := "App", dependencies := [.product 0 [⟨"Tracing", "AppTracing"⟩], .product 1 []] },
    { name := "Tracing", owner := 1 },
    { name := "Logging", owner := 2 }]
  products := [
    { name := "Records", owner := 1, modules := [1] },
    { name := "Records", owner := 2, modules := [2] }]

theorem duplicates_reported_rivals : rivals.IsClosed ∧ rivals.IsIdentified ∧ ¬ rivals.IsCyclic ∧
    ∃ o identities, resolve rivals = .ok o ∧ "logs" ∈ identities ∧ "traces" ∈ identities ∧
      [⟨.productAliasingRequiresTools "5.2" "logs", .warning, false⟩,
        ⟨.duplicateProductName "Records" identities, .error, false⟩] ⊆
          (({} : Engine).diagnoseAll o.log).emitted := by
  have hg : rivals.IsClosed := by decide
  have hids : (rivals.packages.map (·.identity)).Nodup := by decide
  have hac : ¬ rivals.IsCyclic := Walk.not_isCyclic hg (by decide)
  have happ : rivals.IsReached 0 := Graph.isReached_root (by decide)
  have htraces : Supplies rivals "Records" 1 := ⟨⟨⟨0, 0⟩, 0⟩, ⟨happ, ⟨_, rfl⟩, rfl⟩, rfl⟩
  have hlogs : Supplies rivals "Records" 2 := ⟨⟨⟨0, 1⟩, 1⟩, ⟨happ, ⟨_, rfl⟩, rfl⟩, rfl⟩
  obtain ⟨o, ho, names, packages, -, hnames, hpackages, hengine⟩ :=
    duplicates_reported hg hids hac
  obtain ⟨new, hnew, hfilter⟩ := hengine {} rfl
  have hduplicate : "Records" ∈ names := (hnames _).2
    ⟨⟨1, 2, htraces, hlogs, by decide⟩, .inr ⟨2, hlogs, by decide⟩⟩
  have htraces := ((hpackages "Records").2 1).2 htraces
  have hlogs := ((hpackages "Records").2 2).2 hlogs
  have hrecorded : duplicateRecords rivals {} "Records" (packages "Records") ⊆ new := by
    intro r hr
    have hmem : r ∈ new.filter (·.diagnostic.code ∈ productCodes) := by
      rw [hfilter]
      exact List.mem_flatMap.2 ⟨_, hduplicate, hr⟩
    exact (List.mem_filter.1 hmem).1
  refine ⟨hg, hids, hac, o, (packages "Records").map fun p => (rivals.packageAt p).identity, ho,
    List.mem_map.2 ⟨2, hlogs, rfl⟩, List.mem_map.2 ⟨1, htraces, rfl⟩, ?_⟩
  rw [hnew]
  simp only [List.cons_subset, List.nil_subset, and_true]
  refine ⟨List.mem_append_right _ (hrecorded ?_), List.mem_append_right _ (hrecorded ?_)⟩
  · rw [duplicateRecords, if_pos (by decide)]
    exact List.mem_append_left _
      (List.mem_map.2 ⟨2, List.mem_filter.2 ⟨hlogs, by decide⟩, rfl⟩)
  · exact List.mem_append_right _ (List.mem_singleton_self _)

end BuildPlanner.Alias
