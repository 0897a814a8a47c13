import BuildPlanner.Text.Decimal
import Mathlib.Data.List.Induction
import Mathlib.Data.List.TakeWhile
import Mathlib.Data.Nat.Digits.Defs
import Mathlib.Tactic.Lemma

/-!
Numerals and the words that they stand for.

What is written for a word is a numeral of it, and it is the only one without zeros in front.
-/

namespace BuildPlanner.Text.Decimal

/-! ### Written words -/

lemma isNumeral_digits (n : UInt32) : IsNumeral (digits n) :=
  ⟨Nat.toDigits_ne_nil, fun _ hd => Nat.isDigit_of_mem_toDigits (by omega) le_rfl hd⟩

lemma value_digits (n : UInt32) : value (digits n) = n.toNat := by
  have hfold : value (digits n) = Nat.ofDigitChars 10 (Nat.toDigits 10 n.toNat) 0 := by
    rw [Nat.ofDigitChars_eq_foldl]
    rfl
  rw [hfold, Nat.ofDigitChars_toDigits (by omega) (by omega)]

lemma word?_digits (n : UInt32) : word? (digits n) = some n :=
  word?_eq_some.2 ⟨isNumeral_digits n, value_digits n⟩

lemma dot_notMem_digits (n : UInt32) : '.' ∉ digits n := fun h => by
  simpa using (isNumeral_digits n).2 _ h

/-! ### Zeros in front -/

/-- A numeral without the zeros in front that do not count. -/
def trimZeros (ds : List Char) : List Char :=
  match ds.dropWhile (· = '0') with
  | [] => ['0']
  | d :: ds => d :: ds

variable {ds : List Char} {d : Char}

lemma toNat_of_isDigit (h : d.isDigit) : 48 ≤ d.toNat ∧ d.toNat ≤ 57 := by
  simpa [Char.isDigit, UInt32.le_iff_toNat_le] using h

lemma digitValue_lt (h : d.isDigit) : digitValue d < 10 := by
  have hrange := toNat_of_isDigit h
  have hzero : '0'.toNat = 48 := rfl
  rw [digitValue]
  omega

lemma digitChar_digitValue (h : d.isDigit) : (digitValue d).digitChar = d := by
  have hrange := toNat_of_isDigit h
  have hzero : '0'.toNat = 48 := rfl
  rw [← Char.toNat_inj, Nat.toNat_digitChar_of_lt_ten (digitValue_lt h), digitValue]
  omega

lemma value_append_singleton (ds : List Char) (d : Char) :
    value (ds ++ [d]) = 10 * value ds + digitValue d := by
  rw [value, List.foldl_append]
  rfl

lemma value_eq_zero_iff (hds : ∀ d ∈ ds, d.isDigit) : value ds = 0 ↔ ∀ d ∈ ds, d = '0' := by
  induction ds using List.reverseRecOn with
  | nil => simp [value]
  | append_singleton ds d ih =>
    rw [List.forall_mem_append, List.forall_mem_singleton] at hds ⊢
    have hlast : digitValue d = 0 ↔ d = '0' :=
      ⟨fun h => by rw [← digitChar_digitValue hds.2, h]; rfl, fun h => by rw [h]; rfl⟩
    rw [value_append_singleton, ← ih hds.1, ← hlast]
    omega

lemma trimZeros_of_forall (h : ∀ d ∈ ds, d = '0') (d : Char) : trimZeros (ds ++ [d]) = [d] := by
  have hnil : ds.dropWhile (· = '0') = [] := List.dropWhile_eq_nil_iff.2 (by simpa using h)
  rw [trimZeros, List.dropWhile_append, hnil]
  by_cases hd : d = '0' <;> simp [hd]

lemma trimZeros_append_singleton (h : ¬ ∀ d ∈ ds, d = '0') (d : Char) :
    trimZeros (ds ++ [d]) = trimZeros ds ++ [d] := by
  have hne : ds.dropWhile (· = '0') ≠ [] := fun hnil =>
    h (by simpa using List.dropWhile_eq_nil_iff.1 hnil)
  obtain ⟨x, xs, hcons⟩ := List.exists_cons_of_ne_nil hne
  rw [trimZeros, trimZeros, List.dropWhile_append, hcons]
  rfl

/-- Of a numeral, only the zeros in front are lost when it is read and its value is written. -/
lemma toDigits_value (h : IsNumeral ds) : Nat.toDigits 10 (value ds) = trimZeros ds := by
  obtain ⟨hne, hdigits⟩ := h
  induction ds using List.reverseRecOn with
  | nil => exact absurd rfl hne
  | append_singleton ds d ih =>
    rw [List.forall_mem_append, List.forall_mem_singleton] at hdigits
    have hlt := digitValue_lt hdigits.2
    have hlast : Nat.toDigits 10 (digitValue d) = [d] := by
      rw [Nat.toDigits_of_lt_base hlt, digitChar_digitValue hdigits.2]
    rw [value_append_singleton]
    by_cases hzeros : ∀ d ∈ ds, d = '0'
    · rw [(value_eq_zero_iff hdigits.1).2 hzeros, trimZeros_of_forall hzeros, Nat.mul_zero,
        Nat.zero_add, hlast]
    · have hpos : 0 < value ds := Nat.pos_of_ne_zero (mt (value_eq_zero_iff hdigits.1).1 hzeros)
      have hne : ds ≠ [] := fun hnil => hzeros (by simp [hnil])
      rw [← Nat.toDigits_append_toDigits (by omega) hpos hlt, ih hne hdigits.1, hlast,
        trimZeros_append_singleton hzeros]

end BuildPlanner.Text.Decimal
