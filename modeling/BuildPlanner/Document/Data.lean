/-!
Keyed data: texts, flags, lists and records.

Readers of records refuse a key that is unknown or there twice; a missing key is either refused too
or has a default.
-/

namespace BuildPlanner.Document

inductive Data
  | text (s : String)
  | flag (b : Bool)
  | list (items : List Data)
  | record (fields : List (String × Data))
deriving Repr, Inhabited

namespace Data

def text? : Data → Option String
  | text s => some s
  | _ => none

/-- A text is no flag, whatever it says: which spellings are flags is settled where the written form
is read. -/
def flag? : Data → Option Bool
  | flag b => some b
  | _ => none

def list? {α : Type} (item? : Data → Option α) : Data → Option (List α)
  | list items => items.mapM item?
  | _ => none

/-- A record with free keys. -/
def map? {α : Type} (value? : Data → Option α) : Data → Option (List (String × α))
  | record fields =>
    if (fields.map (·.1)).Nodup then fields.mapM fun f => (value? f.2).map fun v => (f.1, v)
    else none
  | _ => none

/-- The fields of a record with no key outside `known`. -/
def fields? (known : List String) : Data → Option (List (String × Data))
  | record fields =>
    if (∀ f ∈ fields, f.1 ∈ known) ∧ (fields.map (·.1)).Nodup then some fields else none
  | _ => none

/-- The value of a key that has to be there. -/
def required {α : Type} (key : String) (value? : Data → Option α)
    (fields : List (String × Data)) : Option α :=
  (fields.lookup key).bind value?

/-- The value of a key, or a default if the key is missing. -/
def optional {α : Type} (key : String) (default : α) (value? : Data → Option α)
    (fields : List (String × Data)) : Option α :=
  match fields.lookup key with
  | none => some default
  | some t => value? t

/-- A field that is written only under a condition. -/
def fieldIf (present : Bool) (key : String) (value : Data) : List (String × Data) :=
  if present then [(key, value)] else []

end Data

end BuildPlanner.Document
