import BuildPlanner.Diagnostic.Basic
import BuildPlanner.Fault
import BuildPlanner.Text.Decimal

/-!
Putting arguments into templates.

In a template `%%` stands for a percent sign, and a percent sign with a run of digits stands for
the argument with that index. All else stands for itself, and arguments are not read again.
-/

namespace BuildPlanner.Diagnostic

def Argument.render : Argument → List Char
  | text s => s.toList
  | list names => (Name.quotedList names).toList
  | number n => Text.Decimal.digits n

/-- The argument that a run of digits refers to. -/
def placeholder (args : List Argument) (ds : List Char) : Except Fault (List Char) :=
  match Text.Decimal.word? ds with
  | none => .error .unreadableIndex
  | some n =>
    match args[n.toNat]? with
    | none => .error .indexOutOfRange
    | some a => .ok a.render

/-- Reads a template from left to right; `pending` holds the digits seen after a percent sign. -/
def substitute (args : List Argument) : (pending : Option (List Char)) → List Char →
    Except Fault (List Char)
  | none, [] => .ok []
  | none, c :: cs =>
    if c = '%' then substitute args (some []) cs
    else do return c :: (← substitute args none cs)
  | some ds, [] => placeholder args ds
  | some ds, c :: cs =>
    if c.isDigit then substitute args (some (ds ++ [c])) cs
    else if c = '%' ∧ ds = [] then do return c :: (← substitute args none cs)
    else do
      let a ← placeholder args ds
      if c = '%' then return a ++ (← substitute args (some []) cs)
      else return a ++ c :: (← substitute args none cs)

def format (template : String) (args : List Argument) : Except Fault String :=
  (substitute args none template.toList).map String.ofList

def message (d : Diagnostic) : Except Fault String := format d.code.template d.arguments

end BuildPlanner.Diagnostic
