import BuildPlanner.Text.Decimal
import BuildPlanner.Text.Fields

/-!
Tools-versions of packages.

A version is a list of components; missing components count as zero. The empty version stands for
the latest possible one and is at least every other version.
-/

namespace BuildPlanner

structure Version where
  components : List UInt32
deriving DecidableEq, Repr, Inhabited

namespace Version

def isEmpty (v : Version) : Bool := v.components.isEmpty

def major (v : Version) : UInt32 := v.components.getD 0 0

def minor (v : Version) : UInt32 := v.components.getD 1 0

/-- Reads one to three numerals separated by single dots. -/
def parse? (text : String) : Option Version :=
  let parts := Text.fields '.' text.toList
  if parts.length ≤ 3 then (parts.mapM Text.Decimal.word?).map Version.mk else none

/-- The components separated by dots; nothing for the empty version. -/
def text (v : Version) : String :=
  ".".intercalate (v.components.map fun c => String.ofList (Text.Decimal.digits c))

/-- The order of component lists in which a missing component counts as zero. -/
def compareComponents : List UInt32 → List UInt32 → Ordering
  | as, [] => if as.all (· == 0) then .eq else .gt
  | [], b :: bs => if (b :: bs).all (· == 0) then .eq else .lt
  | a :: as, b :: bs => (compare a b).then (compareComponents as bs)

/-- The empty version is at least every version. -/
def atLeast (v w : Version) : Bool :=
  v.isEmpty || compareComponents v.components w.components != .lt

def before (v w : Version) : Bool := !v.atLeast w

/-- The same components, up to zeros at the end. -/
def same (v w : Version) : Bool := compareComponents v.components w.components == .eq

/-- The first version whose packages may have renamed products. -/
def productAliasing : Version := ⟨[5, 2]⟩

/-- The first version whose packages may have renamed modules. -/
def moduleAliasing : Version := ⟨[5, 7]⟩

/-- The version of a package that states none. -/
def current : Version := ⟨[6, 0]⟩

def supportsProductAliasing (v : Version) : Bool := v.atLeast productAliasing

def supportsModuleAliasing (v : Version) : Bool := v.atLeast moduleAliasing

end Version

end BuildPlanner
