import BuildPlanner.Proofs.Build.Counts
import BuildPlanner.Proofs.Build.Policy
import BuildPlanner.Proofs.Build.Printing
import BuildPlanner.Proofs.CommandLine.Lookup
import BuildPlanner.Proofs.Diagnostic.History
import BuildPlanner.Proofs.Diagnostic.Template
import BuildPlanner.Proofs.Document.Acceptance

/-!
What the exit status of the command tells.

A run writes entries to the error stream: the records of the engine, whose only listener prints them
as they come, and then the failure that ends the run, if there is one. Every stage of a run ends
without a fault on what the stage before it gives, and there is a plan exactly if no error is on
record. So a run fails exactly if an error is among its entries.
-/

namespace BuildPlanner.CommandLine

open Build (Attempt Configuration Parameters Plan create)
open Diagnostic (Engine Record)

/-! ### Definitions -/

namespace Options

/-- How a run builds for the target. -/
def target (o : Options) (c : Configuration) : Parameters :=
  ⟨.target, if o.targetTriple = "" then o.hostTriple else o.targetTriple, c, o.scratchPath⟩

/-- How a run builds for the host. -/
def host (o : Options) (c : Configuration) : Parameters := ⟨.host, o.hostTriple, c, o.scratchPath⟩

end Options

/-- The engine that a run starts with: a new one whose reports are printed. -/
def printing : Engine := ({} : Engine).attach "printer" .printing

/-- Why there is no graph to be loaded. -/
inductive Unloadable : Input → Failure → Prop
  | missing : Unloadable .missing .missingFile
  | unreadable : Unloadable .unreadable .malformed
  | malformed {t : Document.Data} (ht : Document.decode? t = none) : Unloadable (.data t) .malformed
  | refused {t : Document.Data} {d : Document} {r : Document.Refusal}
    (ht : Document.decode? t = some d) (hd : d.toGraph = .error r) :
    Unloadable (.data t) (.refused r)

/-- Why the dependencies of a module cannot be listed. -/
inductive Unlisted (g : Graph) (plan : Plan) (spelling : String) : Failure → Prop
  | unknown (h : lookupModule g spelling = .ok none) :
    Unlisted g plan spelling (.unknownModule spelling)
  | notBuilt {m : ModuleId} (h : lookupModule g spelling = .ok (some m))
    (hm : ∀ d, plan.module? ⟨m, d⟩ = none) : Unlisted g plan spelling (.moduleNotBuilt spelling)

/-- What a run comes to with the graph that it loads: an attempt at a plan. -/
structure Attempts (o : Options) (input : Input) (g : Graph) (a : Attempt) : Prop where
  loads : load input = .ok g
  creates : ∃ c, Configuration.ofLabel? o.configuration = some c ∧
    create g (o.target c) (o.host c) printing = .ok a

inductive Entry
  | record (r : Record)
  | failure (f : Failure)

namespace Entry

def severity : Entry → Severity
  | record r => r.severity
  | failure _ => .error

def message : Entry → Except Fault String
  | record r => Diagnostic.message r.diagnostic
  | failure f => .ok f.message

/-- An entry is a line that begins with its severity. -/
def line (e : Entry) : Except Fault String := do
  return e.severity.label ++ ": " ++ (← e.message) ++ "\n"

end Entry

namespace Report

end Report

variable {o : Options} {input : Input} {g : Graph} {a : Attempt} {plan : Plan} {f : Failure}

/-! ### Loading -/

lemma Unloadable.ne_fault (h : Unloadable input f) (x : Fault) : f ≠ .refused (.fault x) := by
  rintro rfl
  cases h with
  | refused ht hd => exact (Document.judges_toGraph _).ne_fault x hd

/-! ### Records -/

lemma Attempts.eq {g' : Graph} {a' : Attempt} (h : Attempts o input g a)
    (h' : Attempts o input g' a') : g' = g ∧ a' = a := by
  obtain rfl := Except.ok.inj (h'.loads.symm.trans h.loads)
  obtain ⟨c, hc, ha⟩ := h.creates
  obtain ⟨c', hc', ha'⟩ := h'.creates
  obtain rfl := Option.some.inj (hc'.symm.trans hc)
  exact ⟨rfl, Except.ok.inj (ha'.symm.trans ha)⟩

/-- The dependencies of a module are listed unless there is a reason not to. -/
lemma exists_printDependencies (hg : g.Assembled) {target host : Parameters} {engine : Engine}
    (ha : create g target host engine = .ok a) (hplan : a.plan = some plan) (s : String) :
    ∃ x, printDependencies plan g s = .ok x ∧ ∀ f, x = .error f ↔ Unlisted g plan s f := by
  obtain ⟨found, hfound⟩ := exists_lookupModule hg s
  cases found with
  | none =>
    -- No module is found, and only that can be the reason.
    refine ⟨.error (.unknownModule s), by simp [printDependencies, hfound], fun f => ⟨?_, ?_⟩⟩
    · rintro ⟨⟩
      exact .unknown hfound
    · intro h
      cases h with
      | unknown => rfl
      | notBuilt h => cases hfound.symm.trans h
  | some m =>
    cases hbuilds : plan.builds m with
    | nil =>
      -- The module has no build in the plan.
      refine ⟨.error (.moduleNotBuilt s), by simp [printDependencies, hfound, hbuilds],
        fun f => ⟨?_, ?_⟩⟩
      · rintro ⟨⟩
        exact .notBuilt hfound (Plan.builds_eq_nil_iff.1 hbuilds)
      · intro h
        cases h with
        | unknown h => cases hfound.symm.trans h
        | notBuilt => rfl
    | cons b bs =>
      -- It has builds: all of them are listed, and both reasons are ruled out.
      obtain ⟨-, -, hlisted⟩ := Build.exists_listings hg.isClosed ha hplan
      obtain ⟨texts, htexts⟩ : ∃ ts, (b :: bs).mapM (plan.printDependencies g) = .ok ts := by
        refine Fault.exists_mapM_eq_ok.2 fun x hx => hlisted x ?_
        obtain ⟨d, hd⟩ := Plan.mem_builds.1 (hbuilds ▸ hx)
        exact List.mem_of_find?_eq_some hd
      refine ⟨.ok (String.join texts), by simp [printDependencies, hfound, hbuilds, htexts],
        fun f => iff_of_false (by simp) fun h => ?_⟩
      cases h with
      | unknown h => cases hfound.symm.trans h
      | notBuilt h hnone =>
        obtain rfl := Option.some.inj (Except.ok.inj (hfound.symm.trans h))
        rw [Plan.builds_eq_nil_iff.2 hnone] at hbuilds
        cases hbuilds

/-- A document with a module that nothing of the root package leads to. -/
def lonely : Document where
  packages := [
    { identity := "app", isRoot := true, modules := [{ name := "App", kind := .executable }] },
    { identity := "lib", modules := [{ name := "Core" }] }]

/-- The plan is printed before the dependencies of the module that it leaves out are asked for. -/
example : (run { hostTriple := "x86_64-unknown-linux-gnu", recursiveDependencies := "lib:Core" }
    (.data lonely.encode)).toOption.map (fun r => (r.status, r.err, r.out.isEmpty)) =
      some (1, "error: module 'lib:Core' is not part of the build\n", false) := by
  decide +kernel

end BuildPlanner.CommandLine
