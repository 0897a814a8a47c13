import BuildPlanner.Fault

/-!
Counts of what resolving aliases and planning a build do, kept while it is done.
-/

namespace BuildPlanner

@[ext]
structure Tally where
  /-- Modules reached from root modules. -/
  modulesResolved : Nat := 0
  /-- Module renames applied. -/
  aliasesApplied : Nat := 0
  /-- Modules built under an alias. -/
  renamedModules : Nat := 0
  moduleBuilds : Nat := 0
  /-- Modules built for both destinations. -/
  hostDuplicates : Nat := 0
  /-- Product binaries. -/
  productBuilds : Nat := 0
deriving DecidableEq, Repr

namespace Tally

instance : Add Tally where
  add s t := {
    modulesResolved := s.modulesResolved + t.modulesResolved
    aliasesApplied := s.aliasesApplied + t.aliasesApplied
    renamedModules := s.renamedModules + t.renamedModules
    moduleBuilds := s.moduleBuilds + t.moduleBuilds
    hostDuplicates := s.hostDuplicates + t.hostDuplicates
    productBuilds := s.productBuilds + t.productBuilds }

def print (t : Tally) : String :=
  String.join ([
    (t.modulesResolved, "modules reachable from a root module"),
    (t.aliasesApplied, "module renames applied"),
    (t.renamedModules, "modules built under an alias"),
    (t.moduleBuilds, "module builds planned"),
    (t.hostDuplicates, "modules built for both destinations"),
    (t.productBuilds, "product binaries planned")].map fun c =>
      toString c.1 ++ " " ++ c.2 ++ "\n")

end Tally

/-- Computations that count what they do. -/
abbrev Counting := StateT Tally (Except Fault)

/-- Does something for each item in turn, and adds what it counts for. -/
def countEach {α β : Type} (count : α → Tally) (f : α → Except Fault β) (l : List α) :
    Counting (List β) :=
  l.mapM fun a => do
    let b ← f a
    modify (· + count a)
    return b

end BuildPlanner
