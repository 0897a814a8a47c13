import BuildPlanner.Document.Data
import BuildPlanner.Name

/-!
The written form of keyed data.

Texts and keys stand in double quotes, with the usual escapes; flags are `true` and `false`; lists
stand in brackets and records in braces. Each value begins with a character of its own, so the
length of the text bounds the depth of reading.
-/

namespace BuildPlanner.Document.Notation

def skip (cs : List Char) : List Char := cs.dropWhile Name.isBlank

def hexDigit? (c : Char) : Option Nat :=
  if c.isDigit then some (c.toNat - '0'.toNat)
  else if 'a' ≤ c ∧ c ≤ 'f' then some (c.toNat - 'a'.toNat + 10)
  else if 'A' ≤ c ∧ c ≤ 'F' then some (c.toNat - 'A'.toNat + 10)
  else none

/-- The character with four given hexadecimal digits; surrogates are none. -/
def codePoint? (a b c d : Char) : Option Char := do
  let n := ((← hexDigit? a) * 16 + (← hexDigit? b)) * 256 + (← hexDigit? c) * 16 + (← hexDigit? d)
  if n.isValidChar then return Char.ofNat n else none

/-- The character that a letter behind a backslash stands for. -/
def escape? : Char → Option Char
  | '"' => some '"'
  | '\\' => some '\\'
  | '/' => some '/'
  | 'b' => some '\x08'
  | 'f' => some '\x0c'
  | 'n' => some '\n'
  | 'r' => some '\r'
  | 't' => some '\t'
  | _ => none

/-- Reads up to the closing quote. -/
def quoted? : List Char → Option (List Char × List Char)
  | [] => none
  | '"' :: cs => some ([], cs)
  | '\\' :: 'u' :: a :: b :: c :: d :: cs => do
    let x ← codePoint? a b c d
    let (text, rest) ← quoted? cs
    return (x :: text, rest)
  | '\\' :: c :: cs => do
    let x ← escape? c
    let (text, rest) ← quoted? cs
    return (x :: text, rest)
  | c :: cs => do
    let (text, rest) ← quoted? cs
    return (c :: text, rest)

/-- A key and the colon behind it. -/
def key? (cs : List Char) : Option (String × List Char) :=
  match skip cs with
  | '"' :: cs => do
    let (key, rest) ← quoted? cs
    match skip rest with
    | ':' :: rest => return (String.ofList key, rest)
    | _ => none
  | _ => none

mutual

def value? : (fuel : Nat) → List Char → Option (Data × List Char)
  | 0, _ => none
  | fuel + 1, cs =>
    match skip cs with
    | '"' :: cs => (quoted? cs).map fun r => (.text (String.ofList r.1), r.2)
    | '[' :: cs =>
      match skip cs with
      | ']' :: cs => some (.list [], cs)
      | cs => (items? fuel cs).map fun r => (.list r.1, r.2)
    | '\x7b' :: cs =>
      match skip cs with
      | '\x7d' :: cs => some (.record [], cs)
      | cs => (fields? fuel cs).map fun r => (.record r.1, r.2)
    | 't' :: 'r' :: 'u' :: 'e' :: cs => some (.flag true, cs)
    | 'f' :: 'a' :: 'l' :: 's' :: 'e' :: cs => some (.flag false, cs)
    | _ => none

/-- Items separated by commas, up to the closing bracket. -/
def items? : (fuel : Nat) → List Char → Option (List Data × List Char)
  | 0, _ => none
  | fuel + 1, cs => do
    let (item, cs) ← value? fuel cs
    match skip cs with
    | ']' :: cs => return ([item], cs)
    | ',' :: cs =>
      let (items, cs) ← items? fuel cs
      return (item :: items, cs)
    | _ => none

/-- Fields separated by commas, up to the closing brace. -/
def fields? : (fuel : Nat) → List Char → Option (List (String × Data) × List Char)
  | 0, _ => none
  | fuel + 1, cs => do
    let (key, cs) ← key? cs
    let (value, cs) ← value? fuel cs
    match skip cs with
    | '\x7d' :: cs => return ([(key, value)], cs)
    | ',' :: cs =>
      let (fields, cs) ← fields? fuel cs
      return ((key, value) :: fields, cs)
    | _ => none

end

def parse? (text : String) : Option Data := do
  let cs := text.toList
  let (t, rest) ← value? (cs.length + 1) cs
  if skip rest = [] then return t else none

end BuildPlanner.Document.Notation
