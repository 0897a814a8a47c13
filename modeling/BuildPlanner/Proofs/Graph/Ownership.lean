import BuildPlanner.Proofs.Graph.Assembly

/-!
Which package modules and products belong to.

In an assembled graph a package lists exactly the modules and products that it owns, a product has
modules of its own package only, and no two modules, nor two products, of a package have one name.
-/

namespace BuildPlanner.Graph

/-- The packages list exactly the entities of a table that they own, and the entities of one
package have different names. -/
structure Files (listed : PackageId → List Nat) (n : Nat) (owner : Nat → PackageId)
    (name : Nat → String) : Prop where
  mem_iff (p : PackageId) (i : Nat) : i ∈ listed p ↔ i < n ∧ owner i = p
  eq_of_name {i j : Nat} (hi : i < n) (hj : j < n) (howner : owner i = owner j)
    (hname : name i = name j) : i = j

/-- The tables of packages, modules and products agree on who owns what. -/
structure IsFiled (g : Graph) : Prop where
  modules : Files (fun p => (g.packageAt p).modules) g.modules.length
    (fun m => (g.moduleAt m).owner) fun m => (g.moduleAt m).name
  products : Files (fun p => (g.packageAt p).products) g.products.length
    (fun q => (g.productAt q).owner) fun q => (g.productAt q).name
  members (q : ProductId) : ∀ m ∈ (g.productAt q).modules,
    m < g.modules.length ∧ (g.moduleAt m).owner = (g.productAt q).owner

variable {g g' : Graph}

/-! ### Tables -/

lemma getD_append_singleton {α : Type} (l : List α) (x a : α) (i : Nat) :
    (l ++ [x]).getD i a = if i = l.length then x else l.getD i a := by
  simp only [List.getD_eq_getElem?_getD, List.getElem?_append]
  rcases Nat.lt_trichotomy i l.length with h | h | h
  · simp [h, h.ne]
  · simp [h]
  · have hone : ¬ i - l.length < 1 := by omega
    simp [h.ne', Nat.not_lt.2 h.le, hone]

lemma getD_modify {α : Type} {l : List α} {i : Nat} (hi : i < l.length) (f : α → α) (a : α)
    (j : Nat) : (l.modify i f).getD j a = if j = i then f (l.getD j a) else l.getD j a := by
  simp only [List.getD_eq_getElem?_getD, List.getElem?_modify]
  by_cases hj : j = i
  · subst hj
    simp [hi]
  · simp [hj, Ne.symm hj]

section

variable {listed listed' : PackageId → List Nat} {n : Nat} {owner owner' : Nat → PackageId}
  {name name' : Nat → String}

lemma Files.empty : Files (fun _ => []) 0 owner name where
  mem_iff p i := by simp
  eq_of_name hi := by simp at hi

lemma Files.congr (h : Files listed n owner name) (hlisted : ∀ p, listed' p = listed p)
    (howner : ∀ i, owner' i = owner i) (hname : ∀ i, name' i = name i) :
    Files listed' n owner' name' := by
  obtain rfl := funext hlisted
  obtain rfl := funext howner
  obtain rfl := funext hname
  exact h

lemma Files.append (h : Files listed n owner name) {p : PackageId} {s : String}
    (hnew : ∀ i ∈ listed p, name i ≠ s)
    (hlisted : ∀ q, listed' q = if q = p then listed q ++ [n] else listed q)
    (howner : ∀ i, owner' i = if i = n then p else owner i)
    (hname : ∀ i, name' i = if i = n then s else name i) : Files listed' (n + 1) owner' name' := by
  have hlast (i : Nat) : i < n + 1 ↔ i = n ∨ i < n := by omega
  have hfresh {i : Nat} (hi : i < n) (ho : owner i = p) : name i ≠ s :=
    hnew i ((h.mem_iff p i).2 ⟨hi, ho⟩)
  refine ⟨fun q i => ?_, fun {i j} hi hj ho hn => ?_⟩
  · rw [hlisted, howner, hlast]
    by_cases hi : i = n
    · -- The new position is listed by its owner only.
      have hnone : n ∉ listed q := fun hmem => Nat.lt_irrefl n ((h.mem_iff q n).1 hmem).1
      by_cases hq : q = p
      · simp [hi, hq]
      · simp [hi, hq, Ne.symm hq, hnone]
    · by_cases hq : q = p <;> simp [hi, hq, h.mem_iff]
  · rw [hlast] at hi hj
    rw [howner, howner] at ho
    rw [hname, hname] at hn
    by_cases hin : i = n <;> by_cases hjn : j = n
    · exact hin.trans hjn.symm
    · -- No earlier one of the same owner has the name of the new one.
      rw [if_pos hin, if_neg hjn] at ho hn
      exact absurd hn.symm (hfresh (hj.resolve_left hjn) ho.symm)
    · rw [if_neg hin, if_pos hjn] at ho hn
      exact absurd hn (hfresh (hi.resolve_left hin) ho)
    · rw [if_neg hin, if_neg hjn] at ho hn
      exact h.eq_of_name (hi.resolve_left hin) (hj.resolve_left hjn) ho hn

lemma Files.name_ne_of_last (h : Files listed n owner name)
    (h' : Files listed' (n + 1) owner' name') (howner : ∀ i < n, owner' i = owner i)
    (hname : ∀ i < n, name' i = name i) : ∀ i ∈ listed (owner' n), name i ≠ name' n := by
  intro i hi hsame
  obtain ⟨hin, ho⟩ := (h.mem_iff _ i).1 hi
  rw [← howner i hin] at ho
  rw [← hname i hin] at hsame
  exact hin.ne (h'.eq_of_name (Nat.lt_succ_of_lt hin) (Nat.lt_succ_self n) ho hsame)

end

/-! ### Steps -/

lemma module_eq_ok {m : ModuleId} {x : Module} (h : g.module m = .ok x) : g.moduleAt m = x := by
  unfold Graph.module at h
  split at h
  · next hget =>
    obtain rfl := Except.ok.inj h
    simp [moduleAt, List.getD_eq_getElem?_getD, hget]
  · cases h

lemma product_eq_ok {q : ProductId} {x : Product} (h : g.product q = .ok x) :
    g.productAt q = x := by
  unfold Graph.product at h
  split at h
  · next hget =>
    obtain rfl := Except.ok.inj h
    simp [productAt, List.getD_eq_getElem?_getD, hget]
  · cases h

lemma package_eq_ok {p : PackageId} {x : Package} (h : g.package p = .ok x) :
    g.packageAt p = x := by
  unfold Graph.package at h
  split at h
  · next hget =>
    obtain rfl := Except.ok.inj h
    simp [packageAt, List.getD_eq_getElem?_getD, hget]
  · cases h

lemma name_ne_of_firstModule {name : String} {ms : List ModuleId}
    (h : g.firstModule name ms = .ok none) : ∀ m ∈ ms, (g.moduleAt m).name ≠ name := by
  induction ms with
  | nil => simp
  | cons n ms ih =>
    obtain ⟨x, hx, h⟩ := Fault.bind_eq_ok.1 h
    have hat : g.moduleAt n = x := module_eq_ok hx
    by_cases hname : x.name = name
    · simp [hname] at h
    · intro m hm
      rcases List.mem_cons.1 hm with rfl | hm
      · rwa [hat]
      · exact ih (by simpa [hname] using h) m hm

lemma name_ne_of_firstProduct {name : String} {qs : List ProductId}
    (h : g.firstProduct name qs = .ok none) : ∀ q ∈ qs, (g.productAt q).name ≠ name := by
  induction qs with
  | nil => simp
  | cons r qs ih =>
    obtain ⟨x, hx, h⟩ := Fault.bind_eq_ok.1 h
    have hat : g.productAt r = x := product_eq_ok hx
    by_cases hname : x.name = name
    · simp [hname] at h
    · intro q hq
      rcases List.mem_cons.1 hq with rfl | hq
      · rwa [hat]
      · exact ih (by simpa [hname] using h) q hq

lemma owner_eq_of_checkOwned {owner : PackageId} {ms : List ModuleId}
    (h : g.checkOwned owner ms = .ok ()) : ∀ m ∈ ms, (g.moduleAt m).owner = owner := by
  induction ms with
  | nil => simp
  | cons n ms ih =>
    obtain ⟨x, hx, h⟩ := Fault.bind_eq_ok.1 h
    have hat : g.moduleAt n = x := module_eq_ok hx
    by_cases howner : x.owner = owner
    · intro m hm
      rcases List.mem_cons.1 hm with rfl | hm
      · rwa [hat]
      · exact ih (by simpa [howner] using h) m hm
    · simp [howner] at h

lemma addModule_eq_ok {owner : PackageId} {name : String} {kind : ModuleKind}
    {sources : SourceSet} (h : g.addModule owner name kind sources = .ok g') :
    owner < g.packages.length ∧
    (∀ m ∈ (g.packageAt owner).modules, (g.moduleAt m).name ≠ name) ∧
    g' = { g with
      packages := g.packages.modify owner fun p =>
        { p with modules := p.modules ++ [g.modules.length] }
      modules := g.modules ++ [{ name, owner, kind, sources }] } := by
  obtain ⟨found, hfound, h⟩ := Fault.bind_eq_ok.1 h
  obtain ⟨x, hx, hfirst⟩ := Fault.bind_eq_ok.1 hfound
  cases found with
  | some m => simp at h
  | none =>
    refine ⟨lt_of_package_eq_ok hx, ?_, (Fault.pure_eq_ok.1 h).symm⟩
    rw [package_eq_ok hx]
    exact name_ne_of_firstModule hfirst

lemma addProduct_eq_ok {owner : PackageId} {name : String} {kind : ProductKind}
    {modules : List ModuleId} (h : g.addProduct owner name kind modules = .ok g') :
    owner < g.packages.length ∧
    (∀ q ∈ (g.packageAt owner).products, (g.productAt q).name ≠ name) ∧
    (∀ m ∈ modules, m < g.modules.length ∧ (g.moduleAt m).owner = owner) ∧
    g' = { g with
      packages := g.packages.modify owner fun p =>
        { p with products := p.products ++ [g.products.length] }
      products := g.products ++ [{ name, owner, kind, modules }] } := by
  obtain ⟨found, hfound, h⟩ := Fault.bind_eq_ok.1 h
  obtain ⟨x, hx, hfirst⟩ := Fault.bind_eq_ok.1 hfound
  cases found with
  | some q => simp at h
  | none =>
    obtain ⟨⟨⟩, howned, h⟩ := Fault.bind_eq_ok.1 h
    refine ⟨lt_of_package_eq_ok hx, ?_, fun m hm => ⟨lt_of_checkOwned_eq_ok howned m hm,
      owner_eq_of_checkOwned howned m hm⟩, (Fault.pure_eq_ok.1 h).symm⟩
    rw [package_eq_ok hx]
    exact name_ne_of_firstProduct hfirst

namespace IsFiled

lemma empty : ({} : Graph).IsFiled where
  modules := .empty
  products := .empty
  members q := by simp [productAt]

lemma addPackage {identity location : String} {tools : Version} {isRoot : Bool}
    (hg : g.IsFiled) (h : g.addPackage identity location tools isRoot = .ok g') :
    g'.IsFiled := by
  unfold Graph.addPackage at h
  split at h
  · cases h
  · obtain rfl := Except.ok.inj h
    -- The new package lists nothing, which is also what a position out of range lists.
    refine ⟨hg.modules.congr (fun p => ?_) (fun _ => rfl) fun _ => rfl,
      hg.products.congr (fun p => ?_) (fun _ => rfl) fun _ => rfl, hg.members⟩
    · simp only [packageAt, getD_append_singleton]
      split
      · next hp => simp [hp]
      · rfl
    · simp only [packageAt, getD_append_singleton]
      split
      · next hp => simp [hp]
      · rfl

lemma addModule {owner : PackageId} {name : String} {kind : ModuleKind} {sources : SourceSet}
    (hg : g.IsFiled) (h : g.addModule owner name kind sources = .ok g') : g'.IsFiled := by
  obtain ⟨howner, hnew, rfl⟩ := addModule_eq_ok h
  refine ⟨?_, hg.products.congr (fun p => ?_) (fun _ => rfl) fun _ => rfl, fun q m hm => ?_⟩
  · rw [List.length_append, List.length_singleton]
    refine hg.modules.append hnew (fun p => ?_) (fun m => ?_) fun m => ?_
    · simp only [packageAt, getD_modify howner]
      split <;> rfl
    · simp only [moduleAt, getD_append_singleton]
      split <;> rfl
    · simp only [moduleAt, getD_append_singleton]
      split <;> rfl
  · simp only [packageAt, getD_modify howner]
    split <;> rfl
  · obtain ⟨hm, ho⟩ := hg.members q m hm
    refine ⟨by simpa using Nat.lt_succ_of_lt hm, ?_⟩
    rw [moduleAt, getD_append_singleton, if_neg hm.ne]
    exact ho

lemma addProduct {owner : PackageId} {name : String} {kind : ProductKind}
    {modules : List ModuleId} (hg : g.IsFiled)
    (h : g.addProduct owner name kind modules = .ok g') : g'.IsFiled := by
  obtain ⟨howner, hnew, hmembers, rfl⟩ := addProduct_eq_ok h
  refine ⟨hg.modules.congr (fun p => ?_) (fun _ => rfl) fun _ => rfl, ?_, fun q m hm => ?_⟩
  · simp only [packageAt, getD_modify howner]
    split <;> rfl
  · rw [List.length_append, List.length_singleton]
    refine hg.products.append hnew (fun p => ?_) (fun q => ?_) fun q => ?_
    · simp only [packageAt, getD_modify howner]
      split <;> rfl
    · simp only [productAt, getD_append_singleton]
      split <;> rfl
    · simp only [productAt, getD_append_singleton]
      split <;> rfl
  · rw [productAt, getD_append_singleton] at hm ⊢
    split at hm
    · -- The new product, whose modules were checked.
      next hq =>
      rw [if_pos hq]
      exact hmembers m hm
    · next hq =>
      rw [if_neg hq]
      exact hg.members q m hm

lemma addDependency {consumer : ModuleId} {d : Dependency} (hg : g.IsFiled)
    (h : g.addDependency consumer d = .ok g') : g'.IsFiled := by
  unfold Graph.addDependency at h
  split at h
  · next hconsumer =>
    obtain rfl := Except.ok.inj h
    -- A dependency changes neither the owner nor the name of its consumer.
    have hat (m : ModuleId) : ((g.modules.modify consumer fun x : Module =>
        { x with dependencies := x.dependencies ++ [d] }).getD m {}).owner = (g.moduleAt m).owner ∧
        ((g.modules.modify consumer fun x : Module =>
          { x with dependencies := x.dependencies ++ [d] }).getD m {}).name =
            (g.moduleAt m).name := by
      rw [getD_modify hconsumer]
      split <;> exact ⟨rfl, rfl⟩
    refine ⟨?_, hg.products, fun q m hm => ?_⟩
    · rw [List.length_modify]
      exact hg.modules.congr (fun _ => rfl) (fun m => (hat m).1) fun m => (hat m).2
    · rw [List.length_modify, moduleAt, (hat m).1]
      exact hg.members q m hm
  · cases h

end IsFiled

/-- **In an assembled graph the tables of packages, modules and products agree on who owns
what.** -/
theorem Assembled.isFiled (h : Assembled g) : g.IsFiled := by
  induction h with
  | empty => exact .empty
  | package _ h ih => exact ih.addPackage h
  | module _ h ih => exact ih.addModule h
  | product _ h ih => exact ih.addProduct h
  | dependency _ _ h ih => exact ih.addDependency h

end BuildPlanner.Graph
