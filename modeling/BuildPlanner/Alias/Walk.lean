import BuildPlanner.Graph.Basic

/-!
Visiting modules in depth, dependencies first.

A walk records the order in which dependencies are settled, that is, in which everything behind
them has been visited. It stops at the first dependency cycle. Each step inwards lengthens the
path by a module that is not on it, so the number of modules bounds the depth.
-/

namespace BuildPlanner.Alias

structure Edge where
  consumer : ModuleId
  order : Nat
deriving DecidableEq, Repr

structure Walk where
  finished : List ModuleId := []
  settled : List Edge := []
  /-- The first cycle found: its first module is also its last. -/
  cycle : Option (List ModuleId) := none
deriving DecidableEq, Repr

namespace Walk

/-- The part of a path from `m` on, closed to a cycle. -/
def loop (path : List ModuleId) (m : ModuleId) : List ModuleId := path.dropWhile (· ≠ m) ++ [m]

def finish (w : Walk) (m : ModuleId) : Walk :=
  if w.cycle.isSome then w else { w with finished := w.finished ++ [m] }

def settle (w : Walk) (e : Edge) : Walk :=
  if w.cycle.isSome then w else { w with settled := w.settled ++ [e] }

/-- Visits a module by means of `expand`, unless that has been done or closes a cycle. -/
def enter (path : List ModuleId) (m : ModuleId) (expand : Walk → Walk) (w : Walk) : Walk :=
  if w.cycle.isSome ∨ m ∈ w.finished then w
  else if m ∈ path then { w with cycle := some (loop path m) }
  else expand w

/-- Visits a module that is reached along `path`, outermost module first. -/
def visit (g : Graph) : (fuel : Nat) → (path : List ModuleId) → Walk → ModuleId → Walk
  | 0, path, w, m => enter path m id w
  | fuel + 1, path, w, m =>
    enter path m (fun w =>
      ((g.moduleAt m).dependencies.zipIdx.foldl (fun w d =>
        ((g.targets d.1).foldl (visit g fuel (path ++ [m])) w).settle ⟨m, d.2⟩) w).finish m) w

/-- The walk from all root modules. -/
def ofGraph (g : Graph) : Walk := g.rootModules.foldl (visit g g.modules.length []) {}

end Walk

end BuildPlanner.Alias
