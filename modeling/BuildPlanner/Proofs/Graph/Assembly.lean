import BuildPlanner.Graph.Builder
import BuildPlanner.Proofs.Fault
import BuildPlanner.Proofs.Graph.Leads
import BuildPlanner.Proofs.Name

/-!
Graphs that are assembled step by step from the empty graph. All their references are in range, and
their packages have different identities, all in normal form.

A step of assembly that succeeds names only packages and modules that exist. The one reference
that no step checks is the target of a new dependency, so `Assembled` asks for it.
-/

namespace BuildPlanner.Graph

/-- The graphs that steps of assembly give when dependencies only lead to what is there. -/
inductive Assembled : Graph → Prop
  | empty : Assembled {}
  | package {g g' : Graph} {identity location : String} {tools : Version} {isRoot : Bool}
      (hg : Assembled g) (h : g.addPackage identity location tools isRoot = .ok g') : Assembled g'
  | module {g g' : Graph} {owner : PackageId} {name : String} {kind : ModuleKind}
      {sources : SourceSet} (hg : Assembled g)
      (h : g.addModule owner name kind sources = .ok g') : Assembled g'
  | product {g g' : Graph} {owner : PackageId} {name : String} {kind : ProductKind}
      {modules : List ModuleId} (hg : Assembled g)
      (h : g.addProduct owner name kind modules = .ok g') : Assembled g'
  | dependency {g g' : Graph} {consumer : ModuleId} {d : Dependency} (hg : Assembled g)
      (hd : g.danglingFault? d = none) (h : g.addDependency consumer d = .ok g') : Assembled g'

variable {g g' : Graph}

lemma mem_modify {α : Type} {l : List α} {i : Nat} {f : α → α} {x : α} (h : x ∈ l.modify i f) :
    x ∈ l ∨ ∃ y ∈ l, x = f y := by
  obtain ⟨j, hj⟩ := List.mem_iff_getElem?.1 h
  rw [List.getElem?_modify] at hj
  obtain ⟨y, hy, rfl⟩ := Option.map_eq_some_iff.1 hj
  have hmem : y ∈ l := List.mem_of_getElem? hy
  by_cases hi : i = j
  · exact .inr ⟨y, hmem, by simp [hi]⟩
  · exact .inl (by simpa [hi] using hmem)

lemma danglingFault?_mono {d : Dependency} (hm : g.modules.length ≤ g'.modules.length)
    (hp : g.products.length ≤ g'.products.length) (h : g.danglingFault? d = none) :
    g'.danglingFault? d = none := by
  cases d with
  | module m => exact danglingFault?_module.2 (Nat.lt_of_lt_of_le (danglingFault?_module.1 h) hm)
  | product p aliases =>
    exact danglingFault?_product.2 (Nat.lt_of_lt_of_le (danglingFault?_product.1 h) hp)

lemma package_of_lt {p : PackageId} (hp : p < g.packages.length) :
    g.package p = .ok (g.packageAt p) := by
  simp [Graph.package, packageAt, List.getD_eq_getElem?_getD, List.getElem?_eq_getElem hp]

lemma module_of_lt {m : ModuleId} (hm : m < g.modules.length) :
    g.module m = .ok (g.moduleAt m) := by
  simp [Graph.module, moduleAt, List.getD_eq_getElem?_getD, List.getElem?_eq_getElem hm]

lemma product_of_lt {p : ProductId} (hp : p < g.products.length) :
    g.product p = .ok (g.productAt p) := by
  simp [Graph.product, productAt, List.getD_eq_getElem?_getD, List.getElem?_eq_getElem hp]

lemma lt_of_package_eq_ok {p : PackageId} {x : Package} (h : g.package p = .ok x) :
    p < g.packages.length := by
  unfold package at h
  split at h
  · next hx => exact (List.getElem?_eq_some_iff.1 hx).1
  · cases h

lemma lt_of_module_eq_ok {m : ModuleId} {x : Module} (h : g.module m = .ok x) :
    m < g.modules.length := by
  unfold module at h
  split at h
  · next hx => exact (List.getElem?_eq_some_iff.1 hx).1
  · cases h

lemma lt_of_product_eq_ok {p : ProductId} {x : Product} (h : g.product p = .ok x) :
    p < g.products.length := by
  unfold product at h
  split at h
  · next hx => exact (List.getElem?_eq_some_iff.1 hx).1
  · cases h

lemma lt_of_checkOwned_eq_ok {owner : PackageId} {ms : List ModuleId}
    (h : g.checkOwned owner ms = .ok ()) : ∀ m ∈ ms, m < g.modules.length := by
  induction ms with
  | nil => simp
  | cons m ms ih =>
    obtain ⟨x, hx, h⟩ := Fault.bind_eq_ok.1 h
    split at h
    · simp at h
    · intro n hn
      rcases List.mem_cons.1 hn with rfl | hn
      · exact lt_of_module_eq_ok hx
      · exact ih (by simpa using h) n hn

/-! ### One step -/

namespace IsClosed

lemma addPackage {identity location : String} {tools : Version} {isRoot : Bool}
    (hg : g.IsClosed) (h : g.addPackage identity location tools isRoot = .ok g') :
    g'.IsClosed := by
  obtain ⟨hpackages, hmodules, hproducts⟩ := hg
  unfold Graph.addPackage at h
  split at h
  · cases h
  · obtain rfl := Except.ok.inj h
    refine ⟨fun p hp => ?_, fun m hm => ⟨?_, (hmodules m hm).2⟩,
      fun q hq => ⟨?_, (hproducts q hq).2⟩⟩
    · rcases List.mem_append.1 hp with hp | hp
      · exact hpackages p hp
      · obtain rfl := List.mem_singleton.1 hp
        simp
    · simpa using Nat.lt_succ_of_lt (hmodules m hm).1
    · simpa using Nat.lt_succ_of_lt (hproducts q hq).1

lemma addModule {owner : PackageId} {name : String} {kind : ModuleKind} {sources : SourceSet}
    (hg : g.IsClosed) (h : g.addModule owner name kind sources = .ok g') : g'.IsClosed := by
  obtain ⟨hpackages, hmodules, hproducts⟩ := hg
  obtain ⟨found, hfound, h⟩ := Fault.bind_eq_ok.1 h
  obtain ⟨x, hx, -⟩ := Fault.bind_eq_ok.1 hfound
  cases found with
  | some m => simp at h
  | none =>
    obtain rfl := Fault.pure_eq_ok.1 h
    have hold : ∀ p ∈ g.packages, (∀ m ∈ p.modules, m < g.modules.length + 1) ∧
        ∀ q ∈ p.products, q < g.products.length := fun p hp =>
      ⟨fun m hm => Nat.lt_succ_of_lt ((hpackages p hp).1 m hm), (hpackages p hp).2⟩
    refine ⟨fun p hp => ?_, fun m hm => ?_, fun q hq => ⟨?_, fun m hm => ?_⟩⟩
    · simp only [List.length_append, List.length_singleton]
      rcases mem_modify hp with hp | ⟨y, hy, rfl⟩
      · exact hold p hp
      · refine ⟨fun m hm => ?_, (hold y hy).2⟩
        rcases List.mem_append.1 hm with hm | hm
        · exact (hold y hy).1 m hm
        · obtain rfl := List.mem_singleton.1 hm
          exact Nat.lt_succ_self _
    · -- The modules from before, and the new one, which has no dependencies.
      simp only [List.length_modify]
      rcases List.mem_append.1 hm with hm | hm
      · exact ⟨(hmodules m hm).1, fun d hd =>
          danglingFault?_mono (by simp) (by simp) ((hmodules m hm).2 d hd)⟩
      · obtain rfl := List.mem_singleton.1 hm
        exact ⟨lt_of_package_eq_ok hx, by simp⟩
    · simpa using (hproducts q hq).1
    · simpa using Nat.lt_succ_of_lt ((hproducts q hq).2 m hm)

lemma addProduct {owner : PackageId} {name : String} {kind : ProductKind}
    {modules : List ModuleId} (hg : g.IsClosed)
    (h : g.addProduct owner name kind modules = .ok g') : g'.IsClosed := by
  obtain ⟨hpackages, hmodules, hproducts⟩ := hg
  obtain ⟨found, hfound, h⟩ := Fault.bind_eq_ok.1 h
  obtain ⟨x, hx, -⟩ := Fault.bind_eq_ok.1 hfound
  cases found with
  | some p => simp at h
  | none =>
    obtain ⟨⟨⟩, howned, h⟩ := Fault.bind_eq_ok.1 h
    obtain rfl := Fault.pure_eq_ok.1 h
    have hold : ∀ p ∈ g.packages, (∀ m ∈ p.modules, m < g.modules.length) ∧
        ∀ q ∈ p.products, q < g.products.length + 1 := fun p hp =>
      ⟨(hpackages p hp).1, fun q hq => Nat.lt_succ_of_lt ((hpackages p hp).2 q hq)⟩
    refine ⟨fun p hp => ?_, fun m hm => ⟨?_, fun d hd => ?_⟩, fun q hq => ?_⟩
    · simp only [List.length_append, List.length_singleton]
      rcases mem_modify hp with hp | ⟨y, hy, rfl⟩
      · exact hold p hp
      · refine ⟨(hold y hy).1, fun q hq => ?_⟩
        rcases List.mem_append.1 hq with hq | hq
        · exact (hold y hy).2 q hq
        · obtain rfl := List.mem_singleton.1 hq
          exact Nat.lt_succ_self _
    · simpa using (hmodules m hm).1
    · exact danglingFault?_mono (by simp) (by simp) ((hmodules m hm).2 d hd)
    · -- The products from before, and the new one, whose modules were checked.
      simp only [List.length_modify]
      rcases List.mem_append.1 hq with hq | hq
      · exact hproducts q hq
      · obtain rfl := List.mem_singleton.1 hq
        exact ⟨lt_of_package_eq_ok hx, lt_of_checkOwned_eq_ok howned⟩

lemma addDependency {consumer : ModuleId} {d : Dependency} (hg : g.IsClosed)
    (hd : g.danglingFault? d = none) (h : g.addDependency consumer d = .ok g') :
    g'.IsClosed := by
  obtain ⟨hpackages, hmodules, hproducts⟩ := hg
  unfold Graph.addDependency at h
  split at h
  · obtain rfl := Except.ok.inj h
    have hmono : ∀ d, g.danglingFault? d = none → ∀ g' : Graph,
        g'.modules.length = g.modules.length → g'.products = g.products →
          g'.danglingFault? d = none := fun d hd g' hm hp =>
      danglingFault?_mono hm.ge (by rw [hp]) hd
    refine ⟨by simpa using hpackages, fun m hm => ?_, by simpa using hproducts⟩
    rcases mem_modify hm with hm | ⟨y, hy, rfl⟩
    · exact ⟨(hmodules m hm).1, fun e he => hmono e ((hmodules m hm).2 e he) _ (by simp) rfl⟩
    · refine ⟨(hmodules y hy).1, fun e he => hmono e ?_ _ (by simp) rfl⟩
      rcases List.mem_append.1 he with he | he
      · exact (hmodules y hy).2 e he
      · obtain rfl := List.mem_singleton.1 he
        exact hd
  · cases h

end IsClosed

/-- **Assembled graphs have no dangling references.** -/
theorem Assembled.isClosed (h : Assembled g) : g.IsClosed := by
  induction h with
  | empty => decide
  | package _ h ih => exact ih.addPackage h
  | module _ h ih => exact ih.addModule h
  | product _ h ih => exact ih.addProduct h
  | dependency _ hd h ih => exact ih.addDependency hd h

/-! ### Identities -/

/-- Different packages have different identities. -/
def IsIdentified (g : Graph) : Prop := (g.packages.map (·.identity)).Nodup

lemma IsIdentified.eq_of_identity_eq (h : g.IsIdentified) {p q : PackageId}
    (hp : p < g.packages.length) (hq : q < g.packages.length)
    (hidentity : (g.packageAt p).identity = (g.packageAt q).identity) : p = q := by
  rw [packageAt, packageAt, List.getD_eq_getElem _ _ hp, List.getD_eq_getElem _ _ hq] at hidentity
  have hp' : p < (g.packages.map (·.identity)).length := by simpa using hp
  have hq' : q < (g.packages.map (·.identity)).length := by simpa using hq
  have hsame : (g.packages.map (·.identity))[p] = (g.packages.map (·.identity))[q] := by
    simpa using hidentity
  exact (List.Nodup.getElem_inj_iff h).1 hsame

lemma IsIdentified.packageAt_eq (h : g.IsIdentified) {p q : PackageId}
    (hp : p < g.packages.length) (hq : q < g.packages.length)
    (hidentity : (g.packageAt p).identity = (g.packageAt q).identity) :
    g.packageAt p = g.packageAt q := by
  rw [h.eq_of_identity_eq hp hq hidentity]

lemma map_modify {α β : Type} {l : List α} {i : Nat} {f : α → α} {view : α → β}
    (hf : ∀ x, view (f x) = view x) : (l.modify i f).map view = l.map view := by
  refine List.ext_getElem? fun j => ?_
  rw [List.getElem?_map, List.getElem?_modify, List.getElem?_map]
  by_cases hj : i = j <;> simp [hj, hf, Function.comp_def]

/-- What holds of no identities, and is kept where the normal form of a new identity is added, holds
of the identities of an assembled graph. -/
lemma Assembled.identities_induction {P : List String → Prop} (hempty : P [])
    (hadd : ∀ l identity, P l → Name.normalize identity ∉ l → P (l ++ [Name.normalize identity]))
    (h : Assembled g) : P (g.packages.map (·.identity)) := by
  induction h with
  | empty => exact hempty
  | @package g g' identity location tools isRoot _ h ih =>
    unfold addPackage at h
    split at h
    · cases h
    · -- Only a new package adds an identity.
      next hnew =>
      obtain rfl := Except.ok.inj h
      have hnew : ∀ x ∈ g.packages, x.identity ≠ Name.normalize identity := by
        simpa [findPackage?] using hnew
      simpa using hadd _ identity ih (by simpa using hnew)
  | module _ h ih =>
    obtain ⟨found, -, h⟩ := Fault.bind_eq_ok.1 h
    cases found with
    | some m => simp at h
    | none =>
      obtain rfl := Fault.pure_eq_ok.1 h
      rw [map_modify]
      exacts [ih, fun _ => rfl]
  | product _ h ih =>
    obtain ⟨found, -, h⟩ := Fault.bind_eq_ok.1 h
    cases found with
    | some p => simp at h
    | none =>
      obtain ⟨-, -, h⟩ := Fault.bind_eq_ok.1 h
      obtain rfl := Fault.pure_eq_ok.1 h
      rw [map_modify]
      exacts [ih, fun _ => rfl]
  | dependency _ _ h ih =>
    unfold addDependency at h
    split at h
    · obtain rfl := Except.ok.inj h
      exact ih
    · cases h

/-- **The packages of an assembled graph have different identities.** -/
theorem Assembled.isIdentified (h : Assembled g) : g.IsIdentified :=
  h.identities_induction List.nodup_nil fun _ _ hl hnew => List.nodup_append.2
    ⟨hl, List.nodup_singleton _, fun _ ha _ hb hab =>
      hnew (List.mem_singleton.1 hb ▸ hab ▸ ha)⟩

/-- **The packages of an assembled graph are identified by normal forms.** -/
theorem Assembled.normalize_identity (h : Assembled g) {p : PackageId}
    (hp : p < g.packages.length) :
    Name.normalize (g.packageAt p).identity = (g.packageAt p).identity := by
  have hall : ∀ s ∈ g.packages.map (·.identity), Name.normalize s = s := by
    refine h.identities_induction (P := fun l => ∀ s ∈ l, Name.normalize s = s) (by simp)
      fun l identity hl _ s hs => ?_
    rcases List.mem_append.1 hs with hs | hs
    · exact hl s hs
    · obtain rfl := List.mem_singleton.1 hs
      exact Name.normalize_normalize identity
  rw [packageAt, List.getD_eq_getElem _ _ hp]
  exact hall _ (List.mem_map_of_mem (List.getElem_mem hp))

end BuildPlanner.Graph
