import BuildPlanner.CommandLine.Basic
import BuildPlanner.Proofs.Document.Assembled
import BuildPlanner.Proofs.Graph.Lookup

/-!
Which module a spelling refers to.

A spelling is split at its first colon. The identity of a package is a normal form, so when it is
normalized once more it still finds its package, and a package has no two modules of one name. So
the qualified name of a module leads back to it, unless the colon that is found first is one of the
identity, or the name is empty and the whole is taken for the name of a module.
-/

namespace BuildPlanner

namespace Graph

/-- The first module that has a name: in the order of root modules if one of these has it, and else
in the order of positions. -/
def IsFirstNamed (g : Graph) (name : String) (m : ModuleId) : Prop :=
  (g.moduleAt m).name = name ∧
    ((∃ before after, g.rootModules = before ++ m :: after ∧
        ∀ n ∈ before, (g.moduleAt n).name ≠ name) ∨
      (∀ n ∈ g.rootModules, (g.moduleAt n).name ≠ name) ∧ m < g.modules.length ∧
        ∀ n < m, (g.moduleAt n).name ≠ name)

end Graph

namespace CommandLine

open BuildPlanner.Graph

variable {g : Graph}

/-! ### Names -/

lemma lookupModule_of_notMem {s : String} (hs : ':' ∉ s.toList) :
    lookupModule g s = g.findModule s := by
  rw [lookupModule, Text.cut_of_notMem hs, if_pos rfl, String.ofList_toList]

lemma find?_named_eq_some_iff {name : String} {m : ModuleId} :
    (g.rootModules ++ g.moduleIds).find? (fun n => (g.moduleAt n).name = name) = some m ↔
      g.IsFirstNamed name m := by
  rw [List.find?_append, Option.or_eq_some_iff, List.find?_eq_some_iff_append, List.find?_eq_none,
    moduleIds, List.find?_range_eq_some]
  simp only [decide_eq_true_eq, List.mem_range, Bool.not_eq_true', decide_eq_false_iff_not,
    IsFirstNamed, and_or_left, ne_eq]
  rw [and_left_comm (b := (g.moduleAt m).name = name)]

lemma find?_named_eq_none_iff (hg : g.IsClosed) {name : String} :
    (g.rootModules ++ g.moduleIds).find? (fun n => (g.moduleAt n).name = name) = none ↔
      ∀ m < g.modules.length, (g.moduleAt m).name ≠ name := by
  simp only [List.find?_eq_none, List.mem_append, moduleIds, List.mem_range, decide_eq_true_eq]
  exact ⟨fun h m hm => h m (.inr hm), fun h m hm => h m (hm.elim hg.rootModule_lt id)⟩

lemma exists_lookupModule (hg : g.Assembled) (s : String) :
    ∃ found, lookupModule g s = .ok found := by
  unfold lookupModule
  dsimp only
  split
  · exact ⟨_, hg.isClosed.findModule_eq _⟩
  · split
    · exact ⟨none, rfl⟩
    · next p hp => exact ⟨_, hg.isFiled.findModuleIn_eq (lt_of_findPackage? hp) _⟩

/-! ### Qualified names -/

lemma lookupModule_qualified (hg : g.Assembled) {m : ModuleId} (hm : m < g.modules.length)
    (hidentity : ':' ∉ (g.ownerOf m).identity.toList) (hname : (g.moduleAt m).name ≠ "") :
    lookupModule g ((g.ownerOf m).identity ++ ":" ++ (g.moduleAt m).name) = .ok (some m) := by
  have howner : (g.moduleAt m).owner < g.packages.length :=
    (hg.isClosed.2.1 _ (moduleAt_mem hm)).1
  have hsplit : Text.cut ':' ((g.ownerOf m).identity ++ ":" ++ (g.moduleAt m).name).toList =
      ((g.ownerOf m).identity.toList, (g.moduleAt m).name.toList) := by
    rw [String.toList_append, String.toList_append, List.append_assoc]
    exact Text.cut_append hidentity
  have hpackage : g.findPackage? (g.ownerOf m).identity = some (g.moduleAt m).owner :=
    hg.isIdentified.findPackage?_eq howner (hg.normalize_identity howner).symm
  have hmodule : g.findModuleIn (g.moduleAt m).owner (g.moduleAt m).name = .ok (some m) := by
    rw [hg.isFiled.findModuleIn_eq howner]
    exact congrArg Except.ok (hg.isFiled.modules.find?_eq hm)
  rw [lookupModule, hsplit]
  simp [hname, hpackage, hmodule]

/-- **Qualified names can be looked up again.** In a graph that a document describes, the qualified
name of a module leads back to it, provided that its name is not empty and that no colon is in the
identity of its package. A spelling without a colon leads to the first root module of this name,
or if there is none, to the first module of this name at all, and to nothing only if no module has
it. -/
theorem lookup_inverts_qualified {d : Document} (h : d.toGraph = .ok g) :
    (∀ m < g.modules.length, ':' ∉ (g.ownerOf m).identity.toList → (g.moduleAt m).name ≠ "" →
      ∃ s, g.qualifiedModule m = .ok s ∧ lookupModule g s = .ok (some m)) ∧
    ∀ s : String, ':' ∉ s.toList → ∃ found, lookupModule g s = .ok found ∧
      (∀ m, found = some m ↔ g.IsFirstNamed s m) ∧
      (found = none ↔ ∀ m < g.modules.length, (g.moduleAt m).name ≠ s) := by
  have hg := Document.assembled_of_toGraph h
  refine ⟨fun m hm hidentity hname => ?_, fun s hs => ?_⟩
  · exact ⟨_, hg.isClosed.qualifiedModule_eq hm, lookupModule_qualified hg hm hidentity hname⟩
  · rw [lookupModule_of_notMem hs, hg.isClosed.findModule_eq]
    exact ⟨_, rfl, fun m => find?_named_eq_some_iff, find?_named_eq_none_iff hg.isClosed⟩

/-- A document with two modules of one name, where the one of the root package comes second, and
with a module that has a colon in its name. -/
def namesakes : Document where
  packages := [
    { identity := " Lib", modules := [{ name := "Core" }, { name := "Core:Log" }] },
    { identity := "App", isRoot := true, modules := [{ name := "Core" }] }]

/-- The module of the root package is found by its name, another one by its qualified name. -/
theorem lookup_inverts_qualified_namesakes : ∃ g, namesakes.toGraph = .ok g ∧
    lookupModule g "Core" = .ok (some 2) ∧ lookupModule g "lib:Core:Log" = .ok (some 1) := by
  obtain ⟨g, hg, hlt, hcolon, hname, hlog, hfirst⟩ : ∃ g, namesakes.toGraph = .ok g ∧
      1 < g.modules.length ∧ ':' ∉ (g.ownerOf 1).identity.toList ∧ (g.moduleAt 1).name ≠ "" ∧
        g.qualifiedModule 1 = .ok "lib:Core:Log" ∧ g.IsFirstNamed "Core" 2 :=
    ⟨_, rfl, by decide, by decide +kernel, by decide +kernel, by decide +kernel, rfl,
      .inl ⟨[], [], rfl, by simp⟩⟩
  obtain ⟨hqualified, hnames⟩ := lookup_inverts_qualified hg
  obtain ⟨found, hcore, hsome, -⟩ := hnames "Core" (by decide)
  obtain ⟨s, hs, hm⟩ := hqualified 1 hlt hcolon hname
  obtain rfl := (hsome 2).2 hfirst
  obtain rfl := Except.ok.inj (hs.symm.trans hlog)
  exact ⟨g, hg, hcore, hm⟩

end CommandLine

end BuildPlanner
