/-!
Decimal numerals of 32-bit words.

A numeral is a non-empty run of the digits `0` to `9`; leading zeros are allowed, signs are not,
and the value has to fit in a word.
-/

namespace BuildPlanner.Text.Decimal

/-- The value of a digit; meaningful for `0` to `9` only. -/
def digitValue (c : Char) : Nat := c.toNat - '0'.toNat

/-- The value of a run of digits, most significant digit first. -/
def value (ds : List Char) : Nat := ds.foldl (fun n d => 10 * n + digitValue d) 0

/-- A text of digits only, and at least one of them. -/
def IsNumeral (ds : List Char) : Prop := ds ≠ [] ∧ ∀ d ∈ ds, d.isDigit = true

instance (ds : List Char) : Decidable (IsNumeral ds) :=
  -- The digits are tried one by one; characters are finite, but too many to try.
  have : Decidable (∀ d ∈ ds, d.isDigit = true) := List.decidableBAll _ ds
  inferInstanceAs (Decidable (ds ≠ [] ∧ ∀ d ∈ ds, d.isDigit = true))

/-- Reads a numeral; nothing is read from other text or from a value that is too large. -/
def word? (ds : List Char) : Option UInt32 :=
  if IsNumeral ds ∧ value ds < UInt32.size then some (UInt32.ofNat (value ds)) else none

def digits (n : UInt32) : List Char := Nat.toDigits 10 n.toNat

theorem word?_eq_some {ds : List Char} {n : UInt32} :
    word? ds = some n ↔ IsNumeral ds ∧ value ds = n.toNat := by
  unfold word?
  constructor
  · intro h
    split at h
    · next hw =>
      cases h
      exact ⟨hw.1, (Nat.mod_eq_of_lt hw.2).symm⟩
    · cases h
  · rintro ⟨hn, hv⟩
    have hlt : value ds < UInt32.size := by rw [hv]; exact n.toNat_lt_size
    rw [if_pos ⟨hn, hlt⟩, hv]
    simp

end BuildPlanner.Text.Decimal
