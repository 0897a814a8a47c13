import BuildPlanner.Alias.Survey
import BuildPlanner.Tally

/-!
The names that modules are built under, and the names by which they refer to each other.

`resolve` screens the alias requests, surveys what is seen from the root modules, picks a final
name for each module, assembles the alias maps and compares the names of products. A dependency
cycle ends it without a result.
-/

namespace BuildPlanner.Alias

/-- What is decided for a module that is reached from the root modules. -/
structure Naming where
  finalName : String
  aliases : SortedMap String String
deriving DecidableEq

structure Resolution where
  /-- The decision for each module; modules out of reach have none. -/
  namings : List (Option Naming)
  aliasingUsed : Bool
deriving DecidableEq

structure Outcome where
  resolution : Resolution
  log : List Diagnostic
  tally : Tally

namespace Resolution

def naming? (r : Resolution) (m : ModuleId) : Option Naming := r.namings.getD m none

def isReachable (r : Resolution) (m : ModuleId) : Bool := (r.naming? m).isSome

def finalName (r : Resolution) (m : ModuleId) : Except Fault String :=
  match r.naming? m with
  | some n => .ok n.finalName
  | none => .error .notInBuild

/-- The names that a module has to replace in its sources. -/
def aliases (r : Resolution) (m : ModuleId) : SortedMap String String :=
  ((r.naming? m).map (·.aliases)).getD .empty

def isRenamed (r : Resolution) (g : Graph) (m : ModuleId) : Bool :=
  (r.naming? m).any (·.finalName ≠ (g.moduleAt m).name)

end Resolution

/-! ### Final names -/

/-- The names other than its own under which a module is reached, in order. -/
def renames (g : Graph) (reach : View) (m : ModuleId) : List (String × Option ProductId) :=
  (reach.names m).filter (·.1 ≠ (g.moduleAt m).name)

/-- A module keeps its own name only if it is reached under no other. -/
def finalName (g : Graph) (reach : View) (m : ModuleId) : String :=
  match renames g reach m with
  | [] => (g.moduleAt m).name
  | n :: _ => n.1

def isRenamed (g : Graph) (reach : View) (m : ModuleId) : Bool := !(renames g reach m).isEmpty

/-- The report that a module is reached under more than one name other than its own. -/
def renameConflict (g : Graph) (reach : View) (m : ModuleId) : Except Fault (List Diagnostic) := do
  let renames := renames g reach m
  let products ← renames.mapM fun n =>
    match n.2 with
    | some p => Except.ok p
    | none => .error .renamedWithoutProduct
  match products with
  | p :: _ :: _ =>
    return [.moduleAliasConflict (renames.map (·.1)) (g.moduleAt m).name (g.productAt p).name
      (g.vendorOf p).display]
  | _ => return []

/-! ### Alias maps -/

def sharesName (g : Graph) (view : View) (d : ModuleId) : Bool :=
  (view.modules g).any fun o => o ≠ d && (g.moduleAt o).name = (g.moduleAt d).name

/-- The entry that the alias map of a module needs for a renamed module that it sees. If its
own name belongs to another module, the name that the module sees takes its place. -/
def demand (g : Graph) (reach view : View) (d : ModuleId) :
    Except Fault (List (String × String)) :=
  let own := (g.moduleAt d).name
  let final := finalName g reach d
  if !sharesName g view d || view.contains ⟨d, own⟩ then .ok [(own, final)]
  else
    match (view.names d).find? (·.1 ≠ own) with
    | none => .error .renamedWithoutAlias
    | some n => .ok (if n.1 = final then [] else [(n.1, final)])

/-- The entries that the alias map of a module needs, its own first. -/
def demands (g : Graph) (reach view : View) (m : ModuleId) :
    Except Fault (List (String × String)) := do
  let own := if isRenamed g reach m then [((g.moduleAt m).name, finalName g reach m)] else []
  let others := (view.modules g).filter fun d => d ≠ m && isRenamed g reach d
  return own ++ (← others.mapM (demand g reach view)).flatten

/-- An alias map under construction. -/
structure AliasMap where
  aliases : SortedMap String String := .empty
  log : List Diagnostic := []

/-- Adds an entry. It is reported if its key has another value already, or its value another
key; in the first case the map stays as it is. -/
def AliasMap.add (module : String) (t : AliasMap) (entry : String × String) : AliasMap :=
  match t.aliases.get? entry.1 with
  | some value =>
    if value = entry.2 then t
    else { t with log := t.log ++ [.moduleAliasMapConflict module entry.1 [value, entry.2]] }
  | none =>
    let aliases := t.aliases.insertNew entry.1 entry.2
    match t.aliases.entries.find? (·.2 = entry.2) with
    | none => { t with aliases }
    | some other =>
      { aliases
        log := t.log ++ [.moduleAliasMapConflict module entry.2 [other.1, entry.1]] }

def aliasMap (g : Graph) (reach view : View) (m : ModuleId) : Except Fault AliasMap := do
  return (← demands g reach view m).foldl (AliasMap.add (g.moduleAt m).name) {}

/-! ### Products of equal name -/

/-- A dependency of a reached module on a product. -/
structure Use where
  edge : Edge
  product : ProductId

def uses (g : Graph) (reached : List ModuleId) : List Use :=
  reached.flatMap fun m =>
    (g.moduleAt m).dependencies.zipIdx.filterMap fun d =>
      match d.1 with
      | .module _ => none
      | .product p _ => some ⟨⟨m, d.2⟩, p⟩

/-- The packages whose products of a name are used, by identity. -/
def vendors (g : Graph) (uses : List Use) (name : String) : SortedMap String PackageId :=
  .ofList ((uses.filter fun u => (g.productAt u.product).name = name).map fun u =>
    ((g.vendorOf u.product).identity, (g.productAt u.product).owner))

/-- The reports on products of a name. Equal names are tolerated where an alias renamed something
behind one of the products and all packages may have renamed products. -/
def duplicates (g : Graph) (uses : List Use) (renamingEdges : List Edge) (name : String) :
    List Diagnostic :=
  let packages := (vendors g uses name).entries
  let supported := fun (p : String × PackageId) => (g.packageAt p.2).tools.supportsProductAliasing
  let aliased := uses.any fun u =>
    (g.productAt u.product).name = name && renamingEdges.contains u.edge
  if packages.length < 2 || (aliased && packages.all supported) then []
  else
    let warnings :=
      if isUsed g then
        (packages.filter fun p => !supported p).map fun p =>
          .productAliasingRequiresTools Version.productAliasing.text p.1
      else []
    warnings ++ [.duplicateProductName name (packages.map (·.1))]

def duplicateProducts (g : Graph) (reached : List ModuleId) (renamingEdges : List Edge) :
    List Diagnostic :=
  let uses := uses g reached
  let names : SortedMap String Unit :=
    .ofList (uses.map fun u => ((g.productAt u.product).name, ()))
  names.keys.flatMap (duplicates g uses renamingEdges)

/-! ### Resolution -/

/-- The outcome when the walk met no cycle. -/
def complete (g : Graph) (screened : List Diagnostic) (s : Survey) : Except Fault Outcome := do
  let reach := s.reach g
  let reached := reach.modules g
  let (conflicts, tally) ← (countEach
    (fun m => { modulesResolved := 1, renamedModules := (isRenamed g reach m).toNat })
    (renameConflict g reach) reached).run { aliasesApplied := s.renamings }
  let maps ← reached.mapM fun m => return (m, ← aliasMap g reach (s.view m) m)
  let namings := g.moduleIds.map fun m =>
    (maps.lookup m).map fun t => { finalName := finalName g reach m, aliases := t.aliases }
  return {
    resolution := { namings, aliasingUsed := isUsed g }
    log := screened ++ s.notices.log ++ conflicts.flatten ++ maps.flatMap (·.2.log) ++
      duplicateProducts g reached s.renamingEdges
    tally }

/-- The outcome when the walk met a cycle: no module counts as reached. -/
def cyclic (g : Graph) (screened : List Diagnostic) (s : Survey) (cycle : List ModuleId) :
    Outcome where
  resolution := { namings := g.modules.map fun _ => none, aliasingUsed := isUsed g }
  log := screened ++ s.notices.log ++ [.dependencyCycle (cycle.map fun m => (g.moduleAt m).name)]
  tally := { aliasesApplied := s.renamings }

/-- The dependencies that are followed: to screen requests in all modules, and along the walk. -/
def followed (g : Graph) (w : Walk) : List Dependency :=
  (g.modules.flatMap (·.dependencies)).filter (!·.aliases.isEmpty) ++
    w.settled.filterMap fun e => (g.moduleAt e.consumer).dependencies[e.order]?

/-- Resolves all aliases of a graph. A dependency that leads nowhere is a fault if it is
followed. -/
def resolve (g : Graph) : Except Fault Outcome :=
  let walk := Walk.ofGraph g
  match (followed g walk).findSome? g.danglingFault? with
  | some f => .error f
  | none =>
    let screenings := g.modules.map (Screening.ofModule g)
    let screened := screenings.flatMap (·.log)
    let survey := Survey.ofWalk g screenings walk
    match walk.cycle with
    | some cycle => .ok (cyclic g screened survey cycle)
    | none => complete g screened survey

/-! ### Printing -/

/-- An alias map in braces, behind a blank; nothing if it is empty. -/
def printAliases (aliases : SortedMap String String) : String :=
  if aliases.isEmpty then ""
  else
    " \x7b" ++ ", ".intercalate (aliases.entries.map fun a => a.1 ++ ": " ++ a.2) ++ "\x7d"

/-- A line for each reached module. -/
def Resolution.print (r : Resolution) (g : Graph) : Except Fault String := do
  let lines ← (g.moduleIds.filter r.isReachable).mapM fun m => do
    return (← g.qualifiedModule m) ++ " -> " ++ (← r.finalName m) ++
      printAliases (r.aliases m) ++ "\n"
  return String.join lines

end BuildPlanner.Alias
