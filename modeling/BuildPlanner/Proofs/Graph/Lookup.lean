import BuildPlanner.Proofs.Graph.Ownership

/-!
What look-ups by name give.

Where the entities that are searched are in range, a look-up is a search of a list. In a graph whose
packages list what they own, all of them are, and as names differ within a package, the name of a
module or product finds it and no other. A module's name alone finds the first module that has it.
-/

namespace BuildPlanner.Graph

variable {g : Graph}

/-! ### Searches -/

lemma firstModule_eq (name : String) {ms : List ModuleId} (hms : ∀ m ∈ ms, m < g.modules.length) :
    g.firstModule name ms = .ok (ms.find? fun m => (g.moduleAt m).name = name) := by
  induction ms with
  | nil => rfl
  | cons m ms ih =>
    rw [firstModule, module_of_lt (hms m (by simp)), ih fun n hn => hms n (by simp [hn]),
      List.find?_cons]
    by_cases hname : (g.moduleAt m).name = name <;>
      simp [hname, bind, Except.bind, pure, Except.pure]

lemma firstProduct_eq (name : String) {qs : List ProductId}
    (hqs : ∀ q ∈ qs, q < g.products.length) :
    g.firstProduct name qs = .ok (qs.find? fun q => (g.productAt q).name = name) := by
  induction qs with
  | nil => rfl
  | cons q qs ih =>
    rw [firstProduct, product_of_lt (hqs q (by simp)), ih fun r hr => hqs r (by simp [hr]),
      List.find?_cons]
    by_cases hname : (g.productAt q).name = name <;>
      simp [hname, bind, Except.bind, pure, Except.pure]

lemma checkOwned_eq (owner : PackageId) {ms : List ModuleId}
    (hms : ∀ m ∈ ms, m < g.modules.length) : g.checkOwned owner ms =
      if ∀ m ∈ ms, (g.moduleAt m).owner = owner then .ok () else .error .foreignModule := by
  induction ms with
  | nil => simp [checkOwned]
  | cons m ms ih =>
    rw [checkOwned, module_of_lt (hms m (by simp)), ih fun n hn => hms n (by simp [hn])]
    by_cases howner : (g.moduleAt m).owner = owner <;>
      simp [howner, bind, Except.bind, throw, throwThe, MonadExceptOf.throw]

/-! ### Look-ups by name -/

lemma findIdx?_modules (name : String) : g.modules.findIdx? (fun x => x.name = name) =
    g.moduleIds.find? fun m => (g.moduleAt m).name = name := by
  have hat {m : ModuleId} (hm : m < g.modules.length) : g.modules[m] = g.moduleAt m := by
    rw [moduleAt, List.getD_eq_getElem _ _ hm]
  refine Option.ext fun m => ?_
  rw [moduleIds, List.findIdx?_eq_some_iff_getElem, List.find?_range_eq_some]
  constructor
  · rintro ⟨hm, hname, hbefore⟩
    refine ⟨by rwa [← hat hm], List.mem_range.2 hm, fun n hn => ?_⟩
    rw [← hat (hn.trans hm)]
    simpa using hbefore n hn
  · rintro ⟨hname, hm, hbefore⟩
    have hm := List.mem_range.1 hm
    refine ⟨hm, by rwa [hat hm], fun n hn => ?_⟩
    rw [hat (hn.trans hm)]
    simpa using hbefore n hn

/-- A name alone is searched for among the modules of root packages, and then among all. -/
lemma IsClosed.findModule_eq (hg : g.IsClosed) (name : String) : g.findModule name =
    .ok ((g.rootModules ++ g.moduleIds).find? fun m => (g.moduleAt m).name = name) := by
  rw [findModule, firstModule_eq name fun m hm => hg.rootModule_lt hm, findIdx?_modules,
    List.find?_append]
  cases g.rootModules.find? fun m => (g.moduleAt m).name = name <;> rfl

lemma Files.find?_eq {listed : PackageId → List Nat} {n : Nat} {owner : Nat → PackageId}
    {name : Nat → String} (h : Files listed n owner name) {i : Nat} (hi : i < n) :
    (listed (owner i)).find? (fun j => name j = name i) = some i := by
  have hlisted : i ∈ listed (owner i) := (h.mem_iff _ i).2 ⟨hi, rfl⟩
  obtain ⟨j, hj⟩ := Option.isSome_iff_exists.1
    ((List.find?_isSome (p := fun j => decide (name j = name i))).2 ⟨i, hlisted, by simp⟩)
  obtain ⟨hjn, howner⟩ := (h.mem_iff _ j).1 (List.mem_of_find?_eq_some hj)
  have hname : name j = name i := by simpa using List.find?_some hj
  rw [hj, h.eq_of_name hjn hi howner hname]

namespace IsFiled

lemma findModuleIn_eq (hg : g.IsFiled) {p : PackageId} (hp : p < g.packages.length)
    (name : String) : g.findModuleIn p name =
      .ok ((g.packageAt p).modules.find? fun m => (g.moduleAt m).name = name) := by
  rw [findModuleIn, package_of_lt hp]
  exact firstModule_eq name fun m hm => ((hg.modules.mem_iff p m).1 hm).1

lemma findProductIn_eq (hg : g.IsFiled) {p : PackageId} (hp : p < g.packages.length)
    (name : String) : g.findProductIn p name =
      .ok ((g.packageAt p).products.find? fun q => (g.productAt q).name = name) := by
  rw [findProductIn, package_of_lt hp]
  exact firstProduct_eq name fun q hq => ((hg.products.mem_iff p q).1 hq).1

lemma findModuleIn_own (hg : g.IsFiled) {m : ModuleId} {x : Module} (hx : g.module m = .ok x)
    (howner : x.owner < g.packages.length) : g.findModuleIn x.owner x.name = .ok (some m) := by
  have hm := lt_of_module_eq_ok hx
  obtain rfl := Except.ok.inj ((module_of_lt hm).symm.trans hx)
  rw [hg.findModuleIn_eq howner, hg.modules.find?_eq hm]

lemma findProductIn_own (hg : g.IsFiled) {q : ProductId} {x : Product} (hx : g.product q = .ok x)
    (howner : x.owner < g.packages.length) : g.findProductIn x.owner x.name = .ok (some q) := by
  have hq := lt_of_product_eq_ok hx
  obtain rfl := Except.ok.inj ((product_of_lt hq).symm.trans hx)
  rw [hg.findProductIn_eq howner, hg.products.find?_eq hq]

end IsFiled

lemma IsIdentified.findPackage?_eq (hg : g.IsIdentified) {identity : String} {p : PackageId}
    (hp : p < g.packages.length)
    (hidentity : (g.packageAt p).identity = Name.normalize identity) :
    g.findPackage? identity = some p := by
  rw [findPackage?, List.findIdx?_eq_some_iff_getElem]
  have hat {q : PackageId} (hq : q < g.packages.length) : g.packages[q] = g.packageAt q := by
    rw [packageAt, List.getD_eq_getElem _ _ hq]
  refine ⟨hp, by rw [hat hp]; simpa using hidentity, fun q hq hsame => hq.ne ?_⟩
  have hq' := hq.trans hp
  rw [hat hq'] at hsame
  exact hg.eq_of_identity_eq hq' hp ((of_decide_eq_true hsame).trans hidentity.symm)

lemma lt_of_findPackage? {identity : String} {p : PackageId}
    (h : g.findPackage? identity = some p) : p < g.packages.length := by
  rw [findPackage?, List.findIdx?_eq_some_iff_getElem] at h
  exact h.1

/-! ### Qualified names -/

lemma IsClosed.qualifiedModule_eq (hg : g.IsClosed) {m : ModuleId} (hm : m < g.modules.length) :
    g.qualifiedModule m = .ok ((g.ownerOf m).identity ++ ":" ++ (g.moduleAt m).name) := by
  have howner : (g.moduleAt m).owner < g.packages.length := (hg.2.1 _ (moduleAt_mem hm)).1
  rw [qualifiedModule, module_of_lt hm]
  simp [package_of_lt howner, ownerOf]

lemma IsClosed.qualifiedProduct_eq (hg : g.IsClosed) {q : ProductId} (hq : q < g.products.length) :
    g.qualifiedProduct q = .ok ((g.vendorOf q).identity ++ ":" ++ (g.productAt q).name) := by
  have howner : (g.productAt q).owner < g.packages.length := (hg.2.2 _ (productAt_mem hq)).1
  rw [qualifiedProduct, product_of_lt hq]
  simp [package_of_lt howner, vendorOf]

end BuildPlanner.Graph
