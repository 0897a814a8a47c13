import BuildPlanner.Alias.Screening
import BuildPlanner.SortedMap

/-!
The modules that can be seen from some place of the graph, under all their names there.

A `View` lists sightings in the order of modules and then of names. Each name that is not the
module's own carries the product whose aliases gave it. A `Layer` renames all sightings of a
product's view at once, as the requests on one dependency ask for.
-/

namespace BuildPlanner.Alias

/-- A module under one of its names. -/
structure Sighting where
  module : ModuleId
  name : String
deriving DecidableEq, Repr, Inhabited

namespace Sighting

/-- By module, then by name. -/
def order : Sighting → Sighting → Ordering :=
  compareLex (compareOn Sighting.module) (compareOn Sighting.name)

instance : Ord Sighting := ⟨order⟩

instance : Std.TransOrd Sighting :=
  inferInstanceAs (Std.TransCmp (compareLex (compareOn Sighting.module) (compareOn Sighting.name)))

instance : Std.LawfulEqOrd Sighting where
  eq_of_compare {a b} h := by
    have h : (compare a.module b.module).then (compare a.name b.name) = .eq := h
    obtain ⟨hm, hn⟩ := Ordering.then_eq_eq.1 h
    cases a; cases b
    simp_all

end Sighting

abbrev View := SortedMap Sighting (Option ProductId)

namespace View

/-- A module as it sees itself. -/
def own (g : Graph) (m : ModuleId) : View :=
  SortedMap.empty.insertNew ⟨m, (g.moduleAt m).name⟩ none

/-- The names of a module, in order, with the products that gave them. -/
def names (v : View) (m : ModuleId) : List (String × Option ProductId) :=
  (v.entries.filter (·.1.module = m)).map fun e => (e.1.name, e.2)

def sees (v : View) (m : ModuleId) : Bool := v.entries.any (·.1.module = m)

/-- The modules of a view, in order. -/
def modules (g : Graph) (v : View) : List ModuleId := g.moduleIds.filter v.sees

def carried (v : View) : List String := v.entries.map (·.1.name)

end View

/-- The requests that take effect on a dependency on a product. -/
structure Layer where
  product : ProductId
  requests : List AliasRequest

/-- What a layer does to a sighting. -/
inductive Effect
  | kept
  /-- The module's package is too old to have its modules renamed. -/
  | refused
  | renamed (name : String)
deriving DecidableEq

namespace Layer

def find? (l : Layer) (name : String) : Option AliasRequest :=
  l.requests.find? (·.name = name)

/-- The request that applies to a sighting. A request for the own name of a module that is
seen under another name applies when nothing in the product is called by that name any more. -/
def request? (g : Graph) (l : Layer) (carried : List String) (s : Sighting) :
    Option AliasRequest :=
  match l.find? s.name with
  | some r => some r
  | none =>
    let own := (g.moduleAt s.module).name
    if s.name ≠ own ∧ own ∉ carried then l.find? own else none

def effect (g : Graph) (l : Layer) (carried : List String) (s : Sighting) : Effect :=
  match l.request? g carried s with
  | none => .kept
  | some r =>
    if r.replacement = s.name then .kept
    else if !(g.ownerOf s.module).tools.supportsModuleAliasing then .refused
    else .renamed r.replacement

/-- The entry that takes the place of an entry of the product's view. -/
def entry (g : Graph) (l : Layer) (carried : List String) (e : Sighting × Option ProductId) :
    Sighting × Option ProductId :=
  match l.effect g carried e.1 with
  | .renamed name => (⟨e.1.module, name⟩, some l.product)
  | .kept | .refused => e

def relabel (g : Graph) (l : Layer) (base : View) : View :=
  .ofList (base.entries.map (l.entry g base.carried))

def renamings (g : Graph) (l : Layer) (base : View) : Nat :=
  base.entries.countP fun e =>
    match l.effect g base.carried e.1 with
    | .renamed _ => true
    | .kept | .refused => false

def unapplied (g : Graph) (l : Layer) (base : View) : List AliasRequest :=
  let applied := base.entries.filterMap fun e => l.request? g base.carried e.1
  l.requests.filter fun r => applied.all (·.name ≠ r.name)

end Layer

end BuildPlanner.Alias
