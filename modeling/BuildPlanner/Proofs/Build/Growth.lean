import BuildPlanner.Proofs.Build.Listing
import BuildPlanner.Proofs.Build.Tours
import BuildPlanner.Proofs.Graph.Construction

/-!
Walks through the builds of a plan whose graph has grown since the plan was made.

New dependencies can lead out of the plan and around in cycles, and they can change for which
destination something is built. What stays is that the builds of the plan are of modules that are
there, and that all references are in range. That is all that the ends of tours and lists rest on.
-/

namespace BuildPlanner

open Relation (ReflTransGen TransGen)

/-! ### Growth -/

namespace Builder

/-- What a builder comes to by further calls, each of which adds something. -/
def Grows : Builder → Builder → Prop :=
  ReflTransGen fun b b' => ∃ c, c ≠ .take ∧ b.Admits c ∧ b.perform c = .ok b'

variable {b b' : Builder}

lemma Grows.reached (h : b.Grows b') (hb : b.Reached) : b'.Reached := by
  induction h with
  | refl => exact hb
  | tail _ hstep ih =>
    obtain ⟨c, -, hc, hperform⟩ := hstep
    exact ih.step hc hperform

lemma Grows.length_modules_le (h : b.Grows b') :
    b.graph.modules.length ≤ b'.graph.modules.length := by
  induction h with
  | refl => exact le_rfl
  | tail _ hstep ih =>
    obtain ⟨c, hc, -, hperform⟩ := hstep
    obtain ⟨-, rfl⟩ := perform_eq_ok_iff.1 hperform
    refine ih.trans ?_
    cases c with
    | package identity location tools isRoot => exact le_rfl
    | module owner name kind sources => simp [place, Call.effect]
    | product owner name kind modules => exact le_rfl
    | dependency consumer d => simp [place, Call.effect]
    | take => exact absurd rfl hc

end Builder

namespace Build

open BuildPlanner.Graph

variable {target host : Parameters} {plan : Plan}

/-! ### Walks -/

lemma inRange_of_grows {b b' : Builder} (hb : b.Reached) (hgrown : b.Grows b')
    {engine : Diagnostic.Engine} {a : Attempt} (h : create b.graph target host engine = .ok a)
    (hplan : a.plan = some plan) : plan.InRange b'.graph := fun k hk =>
  have hcovers := covers_of_create hb.assembled.isClosed h hplan
  (lt_of_mem_reachedModules ((hcovers.planned k).1 hk)).trans_le hgrown.length_modules_le

/-- **Walks through a plan end, whatever is added to its graph.** Let a builder's graph grow after a
plan was made of it. The walk from the roots of the plan then ends in one way. If it goes through,
no build that the roots lead to leads back to itself. If it does not, either a build that the roots
lead to was not planned, or one leads back to itself, and the fault names its module. For each build
of the plan, the list of all that it depends on ends in one way too. Either it meets a build that
was not planned, or it has no node twice and not the build itself. -/
theorem walks_grown {b b' : Builder} (hb : b.Reached) (hgrown : b.Grows b')
    {engine : Diagnostic.Engine} {a : Attempt} (h : create b.graph target host engine = .ok a)
    (hplan : a.plan = some plan) :
    (∃ r, (∀ s, Tour.Ends b'.graph plan [] {} plan.roots s ↔ s = r) ∧
      plan.visits b'.graph = r.map (·.visits)) ∧
    (∀ vs, plan.visits b'.graph = .ok vs → ∀ k ∈ plan.roots, ∀ l,
      ReflTransGen (fun k l => l ∈ b'.graph.childKeys k) k l →
        ¬ TransGen (fun k l => l ∈ b'.graph.childKeys k) l l) ∧
    (∀ f, plan.visits b'.graph = .error f → ∃ k ∈ plan.roots, ∃ l,
      ReflTransGen (fun k l => l ∈ b'.graph.childKeys k) k l ∧
        (f = .unplannedVisit ∧ plan.module? l = none ∨
          TransGen (fun k l => l ∈ b'.graph.childKeys k) l l ∧
            ∃ name, b'.graph.qualifiedModule l.module = .ok name ∧ f = .dependencyCycle name)) ∧
    ∀ m ∈ plan.modules,
      (∃ r, (∀ s, Closure.Ends b'.graph plan { modules := [m.key] }
          (b'.graph.successors (.module m.key)) s ↔ s = r) ∧
        plan.recursiveDependencies b'.graph m.key = r.map (·.found)) ∧
      (plan.recursiveDependencies b'.graph m.key = .error .unplannedDependency ∨
        ∃ ds, plan.recursiveDependencies b'.graph m.key = .ok ds ∧ (ds.map (·.node)).Nodup ∧
          .module m.key ∉ ds.map (·.node)) := by
  have hg : b'.graph.IsClosed := (hgrown.reached hb).assembled.isClosed
  have hrange := inRange_of_grows hb hgrown h hplan
  obtain ⟨r, hends, hvisits, hr⟩ := exists_visits_ends hg hrange
  refine ⟨⟨r, fun s => ⟨fun hs => hs.eq hends, fun hs => hs ▸ hends⟩, hvisits⟩, fun vs hvs => ?_,
    fun f hf => ?_, fun m hm => ?_⟩
  · cases r with
    | ok t => exact hr
    | error f => cases hvisits.symm.trans hvs
  · cases r with
    | ok t => cases hvisits.symm.trans hf
    | error f' =>
      obtain rfl : f' = f := Except.error.inj (hvisits.symm.trans hf)
      exact hr
  · obtain ⟨r, hends, hlist, hr⟩ := exists_recursiveDependencies_ends hg hrange hm
    refine ⟨⟨r, fun s => ⟨fun hs => hs.eq hends, fun hs => hs ▸ hends⟩, hlist⟩, ?_⟩
    cases r with
    | ok c => exact .inr ⟨c.found, hlist, hr⟩
    | error f => exact .inl (hr ▸ hlist)

/-- An application and a module that it needs. -/
def chained : Builder where
  graph := {
    packages := [{ identity := "app", display := "app", isRoot := true, modules := [0, 1] }]
    modules := [{ name := "App", dependencies := [.module 1] }, { name := "Core" }] }
  numbers := [[0], []]

lemma reached_chained : chained.Reached := by
  have hpackage := @Builder.Reached.step _ _ (.package "app" "" .current true) .empty trivial rfl
  have happ := @Builder.Reached.step _ _ (.module 0 "App" .library {}) hpackage (by decide) rfl
  have hcore := @Builder.Reached.step _ _ (.module 0 "Core" .library {}) happ (by decide) rfl
  exact @Builder.Reached.step _ _ (.dependency 0 (.module 1)) hcore (by decide) rfl

/-- The module comes to need the application: the walk tells of a cycle, which is there. The list of
what the application depends on still ends, without the application. -/
theorem walks_grown_chained : chained.Reached ∧ ∃ b a plan m,
    chained.Grows b ∧ create chained.graph (.debug .target) (.debug .host) {} = .ok a ∧
      a.plan = some plan ∧ m ∈ plan.modules ∧ m.key = ⟨0, .target⟩ ∧
      plan.visits b.graph = .error (.dependencyCycle "app:App") ∧
      (∃ k, TransGen (fun k l => l ∈ b.graph.childKeys k) k k ∧
        b.graph.qualifiedModule k.module = .ok "app:App") ∧
      ∃ ds, plan.recursiveDependencies b.graph m.key = .ok ds ∧ (ds.map (·.node)).Nodup ∧
        .module m.key ∉ ds.map (·.node) := by
  let b := chained.place (.dependency 1 (.module 0))
  have hgrown : chained.Grows b :=
    .single ⟨.dependency 1 (.module 0), Builder.Call.noConfusion, by decide, rfl⟩
  obtain ⟨a, plan, hcreate, hplan, hwalks⟩ : ∃ a plan, create chained.graph (.debug .target)
      (.debug .host) {} = .ok a ∧ a.plan = some plan ∧ _ :=
    exists_plan (fun plan => (plan.module? ⟨0, .target⟩).isSome &&
      plan.visits b.graph = .error (.dependencyCycle "app:App") &&
      (plan.recursiveDependencies b.graph ⟨0, .target⟩).toOption.isSome) (by decide +kernel)
  simp only [Bool.and_eq_true, decide_eq_true_eq] at hwalks
  obtain ⟨⟨hplanned, hcycle⟩, hlisted⟩ := hwalks
  obtain ⟨m, hm⟩ := Option.isSome_iff_exists.1 hplanned
  have hkey := Plan.key_of_module? hm
  have hmem : m ∈ plan.modules := List.mem_of_find?_eq_some hm
  obtain ⟨-, -, hcause, hlists⟩ := walks_grown reached_chained hgrown hcreate hplan
  obtain ⟨-, -, k, -, ⟨hfault, -⟩ | ⟨hloop, name, hname, hfault⟩⟩ := hcause _ hcycle
  · cases hfault
  · obtain rfl := Fault.dependencyCycle.inj hfault
    refine ⟨reached_chained, b, a, plan, m, hgrown, hcreate, hplan, hmem, hkey, hcycle,
      ⟨k, hloop, hname⟩, (hlists m hmem).2.resolve_left fun herror => ?_⟩
    rw [← hkey, herror] at hlisted
    cases hlisted

end Build

end BuildPlanner
