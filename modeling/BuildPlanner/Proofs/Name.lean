import BuildPlanner.Name
import Mathlib.Data.List.DropRight
import Mathlib.Tactic.Lemma

/-!
Normal forms of package identities.

The normal form of a normal form is itself: what is trimmed has no blanks at its ends, lower case
has no upper case, and a letter in lower case is not a blank.
-/

namespace BuildPlanner.Name

/-! ### Characters -/

lemma toNat_toLower (c : Char) : c.toLower.toNat =
    if 65 ≤ c.toNat ∧ c.toNat ≤ 90 then c.toNat + 32 else c.toNat := by
  have hupper : c.val ≥ 'A'.val ∧ c.val ≤ 'Z'.val ↔ 65 ≤ c.toNat ∧ c.toNat ≤ 90 := by
    simp only [ge_iff_le, UInt32.le_iff_toNat_le]
    rfl
  unfold Char.toLower
  split
  · next h =>
    have hle := hupper.1 h
    rw [if_pos hle]
    change (c.val + 32).toNat = c.val.toNat + 32
    have hsmall : c.val.toNat ≤ 90 := hle.2
    rw [UInt32.toNat_add]
    exact Nat.mod_eq_of_lt (by simp; omega)
  · next h => rw [if_neg (mt hupper.2 h)]

lemma toLower_toLower (c : Char) : c.toLower.toLower = c.toLower := by
  apply Char.toNat_inj.1
  simp only [toNat_toLower]
  split <;> grind

lemma isBlank_iff {c : Char} : isBlank c = true ↔ c.toNat = 32 ∨ 9 ≤ c.toNat ∧ c.toNat ≤ 13 := by
  simp only [isBlank, Bool.or_eq_true, beq_iff_eq, ← Char.toNat_inj]
  simp
  omega

lemma isBlank_toLower (c : Char) : isBlank c.toLower = isBlank c := by
  rw [Bool.eq_iff_iff, isBlank_iff, isBlank_iff, toNat_toLower]
  split <;> omega

/-! ### Identities -/

lemma trim_eq (cs : List Char) : trim cs = (cs.dropWhile isBlank).rdropWhile isBlank := rfl

lemma trim_map_toLower (cs : List Char) :
    trim (cs.map Char.toLower) = (trim cs).map Char.toLower := by
  have hblank : isBlank ∘ Char.toLower = isBlank := funext isBlank_toLower
  simp only [trim, List.dropWhile_map, hblank, ← List.map_reverse]

/-- What is trimmed is trimmed at its front too, since only the end of it was cut off last. -/
lemma trim_trim (cs : List Char) : trim (trim cs) = trim cs := by
  have hfront : (trim cs).dropWhile isBlank = trim cs := by
    rw [List.dropWhile_eq_self_iff]
    intro hlength
    have hfront : trim cs <+: cs.dropWhile isBlank := List.rdropWhile_prefix _ _
    rw [hfront.getElem hlength]
    exact List.dropWhile_eq_self_iff.1 (List.dropWhile_idempotent _ _) _
  rw [trim_eq (trim cs), hfront, trim_eq, List.rdropWhile_idempotent]

/-- **A normal form is its own normal form.** -/
lemma normalize_normalize (s : String) : normalize (normalize s) = normalize s := by
  simp only [normalize, String.toList_ofList, trim_map_toLower, trim_trim, List.map_map]
  congr 1
  exact List.map_congr_left fun c _ => toLower_toLower c

end BuildPlanner.Name
