import BuildPlanner.Alias.View
import BuildPlanner.Alias.Walk

/-!
The views of all modules, computed along a walk.

Each module begins with the view of itself alone. When a dependency is settled, the views behind
it are complete, and what it brings is merged into the view of its module.
-/

namespace BuildPlanner.Alias

/-- Warnings that are given at most once for each module, or for each module and product. -/
structure Notices where
  refused : List ModuleId := []
  mixed : List (ModuleId × ProductId) := []
  log : List Diagnostic := []

namespace Notices

/-- The warning, if any, that a layer's effect on a sighting calls for. -/
def observe (g : Graph) (l : Layer) (carried : List String) (n : Notices) (s : Sighting) :
    Notices :=
  let m := g.moduleAt s.module
  match l.effect g carried s with
  | .kept => n
  | .refused =>
    if s.module ∈ n.refused then n
    else
      { n with
        refused := s.module :: n.refused
        log := n.log ++ [.moduleAliasingRequiresTools Version.moduleAliasing.text m.name
          (g.ownerOf s.module).display] }
  | .renamed _ =>
    if m.sources.isSubstitutable ∨ (s.module, l.product) ∈ n.mixed then n
    else
      { n with
        mixed := (s.module, l.product) :: n.mixed
        log := n.log ++ [.moduleAliasNonSubstitutable m.name (g.productAt l.product).name
          (g.vendorOf l.product).display] }

def observeAll (g : Graph) (l : Layer) (base : View) (n : Notices) : Notices :=
  let n := (base.entries.map (·.1)).foldl (observe g l base.carried) n
  let unapplied := (l.unapplied g base).map fun r =>
    .moduleAliasUnapplied r.name r.replacement (g.productAt l.product).name
      (g.vendorOf l.product).display
  { n with log := n.log ++ unapplied }

end Notices

structure Survey where
  views : List View
  notices : Notices := {}
  /-- How many sightings layers have renamed. -/
  renamings : Nat := 0
  /-- The dependencies whose layers have renamed something. -/
  renamingEdges : List Edge := []

namespace Survey

def start (g : Graph) : Survey := { views := g.moduleIds.map (View.own g) }

def view (s : Survey) (m : ModuleId) : View := s.views.getD m .empty

/-- What is seen through a dependency before renaming. -/
def base (g : Graph) (s : Survey) (d : Dependency) : View :=
  (g.targets d).foldl (fun v m => v.merge (s.view m)) .empty

/-- Merges into the view of a module. -/
def extend (s : Survey) (m : ModuleId) (v : View) : Survey :=
  { s with views := s.views.modify m (·.merge v) }

/-- Takes in a settled dependency on whose product `requests` take effect. -/
def settleLayer (g : Graph) (s : Survey) (e : Edge) (l : Layer) (base : View) : Survey :=
  let renamings := l.renamings g base
  { views := (s.extend e.consumer (l.relabel g base)).views
    notices := s.notices.observeAll g l base
    renamings := s.renamings + renamings
    renamingEdges := if renamings = 0 then s.renamingEdges else s.renamingEdges ++ [e] }

/-- Takes in a settled dependency. -/
def settle (g : Graph) (screenings : List Screening) (s : Survey) (e : Edge) : Survey :=
  match (g.moduleAt e.consumer).dependencies[e.order]? with
  | none => s
  | some (.module m) => s.extend e.consumer (s.base g (.module m))
  | some (.product p aliases) =>
    let base := s.base g (.product p aliases)
    match (screenings.getD e.consumer {}).requests e.order with
    | [] => s.extend e.consumer base
    | requests => s.settleLayer g e ⟨p, requests⟩ base

def ofWalk (g : Graph) (screenings : List Screening) (w : Walk) : Survey :=
  w.settled.foldl (settle g screenings) (start g)

/-- What is seen from the root modules together. -/
def reach (g : Graph) (s : Survey) : View :=
  g.rootModules.foldl (fun v m => v.merge (s.view m)) .empty

end Survey

end BuildPlanner.Alias
