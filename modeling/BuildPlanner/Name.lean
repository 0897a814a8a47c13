/-!
Module names, package identities and lists of names in messages.

Letters and digits are those of ASCII; every character beyond ASCII may stand in a module name.
-/

namespace BuildPlanner.Name

/-- A character that a module name may begin with. -/
def isHead (c : Char) : Bool := c.isAlpha || c == '_' || 128 ≤ c.toNat

def isTail (c : Char) : Bool := isHead c || c.isDigit

/-- A module name that other modules can refer to in source code. -/
def isValid (name : String) : Bool :=
  match name.toList with
  | [] => false
  | c :: cs => isHead c && cs.all isTail

/-- Space, tabulator, line feed, vertical tabulator, form feed and carriage return. -/
def isBlank (c : Char) : Bool :=
  c == ' ' || c == '\t' || c == '\n' || c == '\x0b' || c == '\x0c' || c == '\r'

/-- Removes blanks at both ends. -/
def trim (cs : List Char) : List Char :=
  ((cs.dropWhile isBlank).reverse.dropWhile isBlank).reverse

/-- The form in which package identities are compared: no outer blanks, lower case. -/
def normalize (identity : String) : String :=
  String.ofList ((trim identity.toList).map Char.toLower)

/-- Names in single quotes, separated by a comma and a space. -/
def quotedList (names : List String) : String :=
  ", ".intercalate (names.map fun name => "'" ++ name ++ "'")

end BuildPlanner.Name
