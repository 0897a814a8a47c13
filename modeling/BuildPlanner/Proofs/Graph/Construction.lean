import BuildPlanner.Proofs.Graph.Lookup
import BuildPlanner.Proofs.Name

/-!
What every run of a builder keeps.

`Call.effect` is what a call does with nothing checked. A call that is performed has that effect,
and what the checks refuse is what would give two packages one identity, two modules or products of
a package one name, or a product a module of another package. All else that a builder keeps, such as
the numbers of dependencies, holds after every call.
-/

namespace BuildPlanner.Graph

/-! ### Tables -/

lemma perm_flatMap_modify {α β : Type} {l : List α} {i : Nat} (hi : i < l.length) {f : α → α}
    {entries : α → List β} {x : β} (hf : ∀ a, entries (f a) = entries a ++ [x]) :
    ((l.modify i f).flatMap entries).Perm (l.flatMap entries ++ [x]) := by
  induction l generalizing i with
  | nil => simp at hi
  | cons a l ih =>
    cases i with
    | zero =>
      simp only [List.modify_zero_cons, List.flatMap_cons, hf, List.append_assoc]
      exact List.perm_append_comm.append_left _
    | succ i =>
      simp only [List.modify_succ_cons, List.flatMap_cons, List.append_assoc]
      exact (ih (by simpa using hi)).append_left _

/-- The rows of packages list each of `n` entities once, all of them together. -/
def ListsOnce (entries : Package → List Nat) (n : Nat) (ps : List Package) : Prop :=
  (ps.flatMap entries).Perm (List.range n)

namespace ListsOnce

variable {entries : Package → List Nat} {n : Nat} {ps : List Package} {p : PackageId}
  {f : Package → Package}

lemma append (h : ListsOnce entries n ps) {x : Package} (hx : entries x = []) :
    ListsOnce entries n (ps ++ [x]) := by
  simpa [ListsOnce, hx] using h

lemma modify (h : ListsOnce entries n ps) (hf : ∀ x, entries (f x) = entries x) :
    ListsOnce entries n (ps.modify p f) := by
  rwa [ListsOnce, List.flatMap_def, map_modify hf, ← List.flatMap_def]

lemma enter (h : ListsOnce entries n ps) (hp : p < ps.length)
    (hf : ∀ x, entries (f x) = entries x ++ [n]) : ListsOnce entries (n + 1) (ps.modify p f) := by
  rw [ListsOnce, List.range_succ]
  exact (perm_flatMap_modify hp hf).trans (h.append_right _)

end ListsOnce

end BuildPlanner.Graph

namespace BuildPlanner.Builder

open BuildPlanner.Graph

variable {b b' : Builder} {c : Call}

/-! ### Calls -/

/-- Every index in a call is in range. -/
def Admits (b : Builder) : Call → Prop
  | .package .. | .take => True
  | .module owner .. => owner < b.graph.packages.length
  | .product owner _ _ modules =>
    owner < b.graph.packages.length ∧ ∀ m ∈ modules, m < b.graph.modules.length
  | .dependency consumer d =>
    consumer < b.graph.modules.length ∧ b.graph.danglingFault? d = none

instance (b : Builder) (c : Call) : Decidable (b.Admits c) :=
  match c with
  | .package .. | .take => .isTrue trivial
  | .module owner .. => inferInstanceAs (Decidable (owner < _))
  | .product owner _ _ modules =>
    inferInstanceAs (Decidable (owner < _ ∧ ∀ m ∈ modules, m < b.graph.modules.length))
  | .dependency consumer d =>
    inferInstanceAs (Decidable (consumer < _ ∧ b.graph.danglingFault? d = none))

/-- The builders that runs of calls lead to from the empty one. -/
inductive Reached : Builder → Prop
  | empty : Reached {}
  | step {b b' : Builder} {c : Call} (hb : Reached b) (hc : b.Admits c)
      (h : b.perform c = .ok b') : Reached b'

/-- The effect of a call on a graph, with nothing checked. -/
def Call.effect (g : Graph) : Call → Graph
  | package identity location tools isRoot =>
    { g with
      packages := g.packages ++
        [{ identity := Name.normalize identity, display := identity, location, tools, isRoot }] }
  | module owner name kind sources =>
    { g with
      packages := g.packages.modify owner fun p =>
        { p with modules := p.modules ++ [g.modules.length] }
      modules := g.modules ++ [{ name, owner, kind, sources }] }
  | product owner name kind modules =>
    { g with
      packages := g.packages.modify owner fun p =>
        { p with products := p.products ++ [g.products.length] }
      products := g.products ++ [{ name, owner, kind, modules }] }
  | dependency consumer d =>
    { g with
      modules := g.modules.modify consumer fun m =>
        { m with dependencies := m.dependencies ++ [d] } }
  | take => {}

/-- The effect of a call on a builder, with nothing checked. -/
def place (b : Builder) (c : Call) : Builder where
  graph := c.effect b.graph
  numbers := b.renumber c

/-- The faults of the checks that a call makes. -/
def Call.refusals : Call → List Fault
  | .package .. => [.duplicatePackage]
  | .module .. => [.duplicateModule]
  | .product .. => [.duplicateProduct, .foreignModule]
  | .dependency .. | .take => []

lemma effect_of_apply {g g' : Graph} (h : c.apply g = .ok g') : g' = c.effect g := by
  cases c with
  | package identity location tools isRoot =>
    rw [Call.apply, Graph.addPackage] at h
    split at h
    · cases h
    · exact (Except.ok.inj h).symm
  | module owner name kind sources => exact (addModule_eq_ok h).2.2
  | product owner name kind modules => exact (addProduct_eq_ok h).2.2.2
  | dependency consumer d =>
    rw [Call.apply, Graph.addDependency] at h
    split at h
    · exact (Except.ok.inj h).symm
    · cases h
  | take => exact (Except.ok.inj h).symm

lemma perform_eq_ok_iff : b.perform c = .ok b' ↔
    c.apply b.graph = .ok (c.effect b.graph) ∧ b' = b.place c := by
  simp only [perform, Fault.bind_eq_ok, Fault.pure_eq_ok]
  constructor
  · rintro ⟨g, hg, rfl⟩
    obtain rfl := effect_of_apply hg
    exact ⟨hg, rfl⟩
  · rintro ⟨hg, rfl⟩
    exact ⟨_, hg, rfl⟩

lemma Reached.assembled (h : b.Reached) : b.graph.Assembled := by
  induction h with
  | empty => exact .empty
  | @step b b' c _ hc h ih =>
    obtain ⟨hg, rfl⟩ := perform_eq_ok_iff.1 h
    cases c with
    | package identity location tools isRoot => exact .package ih hg
    | module owner name kind sources => exact .module ih hg
    | product owner name kind modules => exact .product ih hg
    | dependency consumer d => exact .dependency ih hc.2 hg
    | take => exact .empty

/-! ### The invariant -/

/-- The tables of a builder are in order. Identities are normal forms of the names that packages
are shown by, and differ; packages list the modules and products that they own, each once, under
different names; a product has modules of its own package; and the dependencies of a module are
numbered in their order. -/
structure IsSound (b : Builder) : Prop where
  normalized : ∀ p ∈ b.graph.packages, p.identity = Name.normalize p.display
  identified : b.graph.IsIdentified
  filed : b.graph.IsFiled
  modules_once : ListsOnce (·.modules) b.graph.modules.length b.graph.packages
  products_once : ListsOnce (·.products) b.graph.products.length b.graph.packages
  numbered : b.numbers = b.graph.modules.map fun m => List.range m.dependencies.length

namespace IsSound

lemma normalized_place (h : b.IsSound) (c : Call) :
    ∀ p ∈ (b.place c).graph.packages, p.identity = Name.normalize p.display := by
  intro p hp
  cases c with
  | package identity location tools isRoot =>
    rcases List.mem_append.1 hp with hp | hp
    · exact h.normalized p hp
    · obtain rfl := List.mem_singleton.1 hp
      rfl
  | module owner name kind sources | product owner name kind modules =>
    rcases mem_modify hp with hp | ⟨x, hx, rfl⟩
    · exact h.normalized p hp
    · exact h.normalized x hx
  | dependency consumer d => exact h.normalized p hp
  | take => cases hp

lemma modules_once_place (h : b.IsSound) (hc : b.Admits c) :
    ListsOnce (·.modules) (b.place c).graph.modules.length (b.place c).graph.packages := by
  cases c with
  | package identity location tools isRoot => exact h.modules_once.append rfl
  | module owner name kind sources =>
    simp only [place, Call.effect, List.length_append, List.length_singleton]
    exact h.modules_once.enter hc fun _ => rfl
  | product owner name kind modules => exact h.modules_once.modify fun _ => rfl
  | dependency consumer d =>
    simp only [place, Call.effect, List.length_modify]
    exact h.modules_once
  | take => exact .refl _

lemma products_once_place (h : b.IsSound) (hc : b.Admits c) :
    ListsOnce (·.products) (b.place c).graph.products.length (b.place c).graph.packages := by
  cases c with
  | package identity location tools isRoot => exact h.products_once.append rfl
  | module owner name kind sources => exact h.products_once.modify fun _ => rfl
  | product owner name kind modules =>
    simp only [place, Call.effect, List.length_append, List.length_singleton]
    exact h.products_once.enter hc.1 fun _ => rfl
  | dependency consumer d => exact h.products_once
  | take => exact .refl _

lemma numbered_place (h : b.IsSound) (c : Call) : (b.place c).numbers =
    (b.place c).graph.modules.map fun m => List.range m.dependencies.length := by
  cases c with
  | package identity location tools isRoot => exact h.numbered
  | module owner name kind sources => simp [place, Call.effect, renumber, h.numbered]
  | product owner name kind modules => exact h.numbered
  | dependency consumer d =>
    refine List.ext_getElem? fun m => ?_
    simp only [place, Call.effect, renumber, h.numbered, List.getElem?_modify, List.getElem?_map]
    by_cases hm : consumer = m
    · subst hm
      cases hx : b.graph.modules[consumer]? <;>
        simp [moduleAt, List.getD_eq_getElem?_getD, hx, List.range_succ]
    · simp [hm]
  | take => rfl

end IsSound

/-- **A run of calls leaves the tables in order.** -/
lemma Reached.isSound (h : b.Reached) : b.IsSound := by
  induction h with
  | empty => exact ⟨by simp, List.nodup_nil, .empty, .refl _, .refl _, rfl⟩
  | @step b b' c hb hc h ih =>
    have hassembled := (hb.step hc h).assembled
    obtain ⟨-, rfl⟩ := perform_eq_ok_iff.1 h
    exact ⟨ih.normalized_place c, hassembled.isIdentified, hassembled.isFiled,
      ih.modules_once_place hc, ih.products_once_place hc, ih.numbered_place c⟩

/-! ### Checks -/

/-- What the checks of a call ask for: an identity that is new, a name that is new to the package,
and modules of the package only. -/
def Accepts (b : Builder) : Call → Prop
  | .package identity .. => ∀ x ∈ b.graph.packages, x.identity ≠ Name.normalize identity
  | .module owner name .. =>
    ∀ m ∈ (b.graph.packageAt owner).modules, (b.graph.moduleAt m).name ≠ name
  | .product owner name _ modules =>
    (∀ q ∈ (b.graph.packageAt owner).products, (b.graph.productAt q).name ≠ name) ∧
      ∀ m ∈ modules, (b.graph.moduleAt m).owner = owner
  | .dependency .. | .take => True

lemma perform_of_accepts (hb : b.IsSound) (hc : b.Admits c) (h : b.Accepts c) :
    b.perform c = .ok (b.place c) := by
  refine perform_eq_ok_iff.2 ⟨?_, rfl⟩
  cases c with
  | package identity location tools isRoot =>
    have hnone : b.graph.findPackage? identity = none := by simpa [findPackage?, Accepts] using h
    rw [Call.apply, addPackage, hnone]
    rfl
  | module owner name kind sources =>
    have hnone : b.graph.findModuleIn owner name = .ok none := by
      rw [hb.filed.findModuleIn_eq hc, List.find?_eq_none.2 (by simpa [Accepts] using h)]
    rw [Call.apply, addModule, hnone]
    rfl
  | product owner name kind modules =>
    obtain ⟨hnew, howned⟩ := h
    have hnone : b.graph.findProductIn owner name = .ok none := by
      rw [hb.filed.findProductIn_eq hc.1, List.find?_eq_none.2 (by simpa using hnew)]
    rw [Call.apply, addProduct, hnone, checkOwned_eq owner hc.2, if_pos howned]
    rfl
  | dependency consumer d =>
    rw [Call.apply, addDependency, if_pos hc.1]
    rfl
  | take => rfl

lemma exists_refusal (hb : b.IsSound) (hc : b.Admits c) (h : ¬ b.Accepts c) :
    ∃ f ∈ c.refusals, b.perform c = .error f := by
  cases c with
  | package identity location tools isRoot =>
    obtain ⟨p, hp⟩ : ∃ p, b.graph.findPackage? identity = some p := by
      rw [← Option.isSome_iff_exists, Option.isSome_iff_ne_none]
      simpa [findPackage?, Accepts] using h
    refine ⟨.duplicatePackage, by simp [Call.refusals], ?_⟩
    rw [perform, Call.apply, addPackage, hp]
    rfl
  | module owner name kind sources =>
    obtain ⟨m, hm⟩ : ∃ m, b.graph.findModuleIn owner name = .ok (some m) := by
      rw [hb.filed.findModuleIn_eq hc]
      simpa [Accepts, ← Option.isSome_iff_exists] using h
    refine ⟨.duplicateModule, by simp [Call.refusals], ?_⟩
    rw [perform, Call.apply, addModule, hm]
    rfl
  | product owner name kind modules =>
    -- The name is checked before the modules.
    by_cases hnew : ∀ q ∈ (b.graph.packageAt owner).products, (b.graph.productAt q).name ≠ name
    · have howned : ¬ ∀ m ∈ modules, (b.graph.moduleAt m).owner = owner := fun ho => h ⟨hnew, ho⟩
      have hnone : b.graph.findProductIn owner name = .ok none := by
        rw [hb.filed.findProductIn_eq hc.1, List.find?_eq_none.2 (by simpa using hnew)]
      refine ⟨.foreignModule, by simp [Call.refusals], ?_⟩
      rw [perform, Call.apply, addProduct, hnone, checkOwned_eq owner hc.2, if_neg howned]
      rfl
    · obtain ⟨q, hq⟩ : ∃ q, b.graph.findProductIn owner name = .ok (some q) := by
        rw [hb.filed.findProductIn_eq hc.1]
        simpa [← Option.isSome_iff_exists] using hnew
      refine ⟨.duplicateProduct, by simp [Call.refusals], ?_⟩
      rw [perform, Call.apply, addProduct, hq]
      rfl
  | dependency consumer d => exact absurd trivial h
  | take => exact absurd trivial h

lemma accepts_of_isSound (hb : b.IsSound) (h : (b.place c).IsSound) : b.Accepts c := by
  cases c with
  | package identity location tools isRoot =>
    have hnodup := h.identified
    simp only [IsIdentified, place, Call.effect, List.map_append, List.map_singleton] at hnodup
    have hnew := (List.nodup_append.1 hnodup).2.2
    simpa [Accepts] using hnew
  | module owner name kind sources =>
    have hat (m : ModuleId) : (b.place (.module owner name kind sources)).graph.moduleAt m =
        if m = b.graph.modules.length then { name, owner, kind, sources }
        else b.graph.moduleAt m := getD_append_singleton ..
    have hlast := hat b.graph.modules.length
    rw [if_pos rfl] at hlast
    have hlength : (b.place (.module owner name kind sources)).graph.modules.length =
        b.graph.modules.length + 1 := List.length_append
    have hnew := hb.filed.modules.name_ne_of_last (hlength ▸ h.filed.modules)
      (fun m hm => by rw [hat, if_neg hm.ne]) fun m hm => by rw [hat, if_neg hm.ne]
    rwa [hlast] at hnew
  | product owner name kind modules =>
    have hat (q : ProductId) : (b.place (.product owner name kind modules)).graph.productAt q =
        if q = b.graph.products.length then { name, owner, kind, modules }
        else b.graph.productAt q := getD_append_singleton ..
    have hlast := hat b.graph.products.length
    rw [if_pos rfl] at hlast
    have hlength : (b.place (.product owner name kind modules)).graph.products.length =
        b.graph.products.length + 1 := List.length_append
    have hnew := hb.filed.products.name_ne_of_last (hlength ▸ h.filed.products)
      (fun q hq => by rw [hat, if_neg hq.ne]) fun q hq => by rw [hat, if_neg hq.ne]
    have hmembers := h.filed.members b.graph.products.length
    rw [hlast] at hnew hmembers
    exact ⟨hnew, fun m hm => (hmembers m hm).2⟩
  | dependency consumer d => trivial
  | take => trivial

/-! ### What a call leaves as it was -/

namespace Call

def newModules (c : Call) (g : Graph) (p : PackageId) : List ModuleId :=
  match c with
  | .module owner .. => if owner = p then [g.modules.length] else []
  | _ => []

def newProducts (c : Call) (g : Graph) (p : PackageId) : List ProductId :=
  match c with
  | .product owner .. => if owner = p then [g.products.length] else []
  | _ => []

def newDependencies (c : Call) (m : ModuleId) : List Dependency :=
  match c with
  | .dependency consumer d => if consumer = m then [d] else []
  | _ => []

/-- All that was there before a call is as it was, but for what the call adds to its lists. -/
structure Extends (c : Call) (g g' : Graph) : Prop where
  packages (p : PackageId) (x : Package) (hx : g.packages[p]? = some x) : g'.packages[p]? =
    some { x with
      modules := x.modules ++ c.newModules g p
      products := x.products ++ c.newProducts g p }
  modules (m : ModuleId) (x : Module) (hx : g.modules[m]? = some x) : g'.modules[m]? =
    some { x with dependencies := x.dependencies ++ c.newDependencies m }
  products (q : ProductId) (x : Product) (hx : g.products[q]? = some x) : g'.products[q]? = some x

lemma getElem?_append_of_some {α : Type} {l : List α} {i : Nat} {x : α} (h : l[i]? = some x)
    (l' : List α) : (l ++ l')[i]? = some x := by
  rw [List.getElem?_append_left (List.getElem?_eq_some_iff.1 h).1, h]

lemma extends_effect {g : Graph} (hc : c ≠ .take) : c.Extends g (c.effect g) := by
  cases c with
  | package identity location tools isRoot =>
    refine ⟨fun p x hx => ?_, fun m x hx => ?_, fun q x hx => hx⟩
    · simp only [newModules, newProducts, List.append_nil]
      exact getElem?_append_of_some hx _
    · simp only [newDependencies, List.append_nil]
      exact hx
  | module owner name kind sources =>
    refine ⟨fun p x hx => ?_, fun m x hx => ?_, fun q x hx => hx⟩
    · simp only [effect, List.getElem?_modify, hx, newModules, newProducts]
      split <;> simp
    · simp only [newDependencies, List.append_nil]
      exact getElem?_append_of_some hx _
  | product owner name kind modules =>
    refine ⟨fun p x hx => ?_, fun m x hx => ?_, fun q x hx => getElem?_append_of_some hx _⟩
    · simp only [effect, List.getElem?_modify, hx, newModules, newProducts]
      split <;> simp
    · simp only [newDependencies, List.append_nil]
      exact hx
  | dependency consumer d =>
    refine ⟨fun p x hx => ?_, fun m x hx => ?_, fun q x hx => hx⟩
    · simp only [newModules, newProducts, List.append_nil]
      exact hx
    · simp only [effect, List.getElem?_modify, hx, newDependencies]
      split <;> simp
  | take => exact absurd rfl hc

end Call

/-! ### Look-ups -/

lemma IsSound.findPackage? (h : b.IsSound) {p : PackageId} {x : Package}
    (hx : b.graph.packages[p]? = some x) : b.graph.findPackage? x.display = some p ∧
      b.graph.findPackage? x.identity = some p := by
  have hp := (List.getElem?_eq_some_iff.1 hx).1
  have hat : b.graph.packageAt p = x := by simp [packageAt, List.getD_eq_getElem?_getD, hx]
  have hnormal := h.normalized x (List.mem_of_getElem? hx)
  refine ⟨h.identified.findPackage?_eq hp ?_, h.identified.findPackage?_eq hp ?_⟩
  · rw [hat, hnormal]
  · rw [hat, hnormal, Name.normalize_normalize]

lemma IsSound.findModuleIn (h : b.IsSound) {m : ModuleId} {x : Module}
    (hx : b.graph.modules[m]? = some x) (howner : x.owner < b.graph.packages.length) :
    b.graph.findModuleIn x.owner x.name = .ok (some m) :=
  h.filed.findModuleIn_own (by rw [Graph.module, hx]) howner

lemma IsSound.findProductIn (h : b.IsSound) {q : ProductId} {x : Product}
    (hx : b.graph.products[q]? = some x) (howner : x.owner < b.graph.packages.length) :
    b.graph.findProductIn x.owner x.name = .ok (some q) :=
  h.filed.findProductIn_own (by rw [Graph.product, hx]) howner

/-- **A builder stays sound along every run, and refuses exactly what would break it.** Whatever
calls with indices in range were performed, the tables are in order, and each package, module and
product is found by its name. A call whose effect leaves the tables in order is performed, and any
other is refused by a check. What was there before a call, unless it takes the graph, is as it was,
but for what the call adds to its lists. -/
theorem construction_sound (hb : b.Reached) :
    b.IsSound ∧
    (∀ p x, b.graph.packages[p]? = some x → b.graph.findPackage? x.display = some p ∧
      b.graph.findPackage? x.identity = some p) ∧
    (∀ m x, b.graph.modules[m]? = some x →
      b.graph.findModuleIn x.owner x.name = .ok (some m)) ∧
    (∀ q x, b.graph.products[q]? = some x →
      b.graph.findProductIn x.owner x.name = .ok (some q)) ∧
    ∀ c, b.Admits c →
      ((b.place c).IsSound → b.perform c = .ok (b.place c)) ∧
      (¬ (b.place c).IsSound → ∃ f ∈ c.refusals, b.perform c = .error f) ∧
      (c ≠ .take → c.Extends b.graph (b.place c).graph) := by
  have hsound := hb.isSound
  obtain ⟨-, hmodules, hproducts⟩ := hb.assembled.isClosed
  refine ⟨hsound, fun p x hx => hsound.findPackage? hx, fun m x hx => ?_, fun q x hx => ?_,
    fun c hc => ⟨fun h => ?_, fun h => ?_, Call.extends_effect⟩⟩
  · exact hsound.findModuleIn hx (hmodules x (List.mem_of_getElem? hx)).1
  · exact hsound.findProductIn hx (hproducts x (List.mem_of_getElem? hx)).1
  · exact perform_of_accepts hsound hc (accepts_of_isSound hsound h)
  · refine exists_refusal hsound hc fun haccepts => h ?_
    exact (hb.step hc (perform_of_accepts hsound hc haccepts)).isSound

/-- A builder that was used again after its graph was taken. One identity is not in normal form. -/
def reused : Builder where
  graph := {
    packages := [
      { identity := "my-app", display := " My-App", isRoot := true, modules := [0] },
      { identity := "lib", display := "lib", modules := [1], products := [0] }]
    modules := [
      { name := "App", dependencies := [.product 0 [], .product 0 [⟨"Core", "LibCore"⟩]] },
      { name := "Core", owner := 1 }]
    products := [{ name := "Lib", owner := 1, modules := [1] }] }
  numbers := [[0, 1], []]

lemma reached_reused : reused.Reached := by
  have hold := @Reached.step _ _ (.package "my-app" "" .current false) .empty trivial rfl
  have htaken := @Reached.step _ _ .take hold trivial rfl
  have happ := @Reached.step _ _ (.package " My-App" "" .current true) htaken trivial rfl
  have hlib := @Reached.step _ _ (.package "lib" "" .current false) happ trivial rfl
  have hroot := @Reached.step _ _ (.module 0 "App" .library {}) hlib (by decide) rfl
  have hcore := @Reached.step _ _ (.module 1 "Core" .library {}) hroot (by decide) rfl
  have hproduct := @Reached.step _ _ (.product 1 "Lib" .automaticLibrary [1]) hcore (by decide) rfl
  have hplain := @Reached.step _ _ (.dependency 0 (.product 0 [])) hproduct (by decide) rfl
  exact @Reached.step _ _ (.dependency 0 (.product 0 [⟨"Core", "LibCore"⟩])) hplain (by decide) rfl

/-- The package is found under both spellings, and a third spelling is refused. -/
theorem construction_sound_reused : reused.Reached ∧
    reused.graph.findPackage? " My-App" = some 0 ∧ reused.graph.findPackage? "my-app" = some 0 ∧
      reused.graph.findModuleIn 1 "Core" = .ok (some 1) ∧
      reused.graph.findProductIn 1 "Lib" = .ok (some 0) ∧
      ∃ f ∈ [Fault.duplicatePackage],
        reused.perform (.package "MY-APP " "" .current false) = .error f := by
  obtain ⟨-, hpackages, hmodules, hproducts, hcalls⟩ := construction_sound reached_reused
  obtain ⟨hdisplay, hidentity⟩ := hpackages 0 _ rfl
  refine ⟨reached_reused, hdisplay, hidentity, hmodules 1 _ rfl, hproducts 0 _ rfl,
    (hcalls (.package "MY-APP " "" .current false) trivial).2.1 fun h => ?_⟩
  have hnodup : ¬ ["my-app", "lib", "my-app"].Nodup := by decide
  exact hnodup h.identified

end BuildPlanner.Builder
