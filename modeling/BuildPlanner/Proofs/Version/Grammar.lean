import BuildPlanner.Proofs.Text.Bytes
import BuildPlanner.Proofs.Version

/-!
Which texts are read as versions, and how these texts differ from what is written.

A text is read exactly if it is one to three numerals with single dots between them. There are many
numerals of a word, for zeros may stand in front, but only the one without such zeros is written.
All that counts is ASCII, so it makes no difference whether a text is read by its characters or by
its bytes.
-/

namespace BuildPlanner

namespace Text

/-! ### Fields -/

lemma intercalate_fields {sep : Char} (cs : List Char) :
    [sep].intercalate (fields sep cs) = cs := by
  induction cs with
  | nil => rfl
  | cons c cs ih =>
    obtain ⟨p, ps, hfields⟩ := List.exists_cons_of_ne_nil (fields_ne_nil sep cs)
    rw [hfields] at ih
    rw [fields]
    split
    · next hc => rw [hfields, List.intercalate_cons_cons, ih, hc, List.nil_append]; rfl
    · rw [hfields]
      cases ps with
      | nil => simpa using ih
      | cons q qs =>
        rw [List.intercalate_cons_cons] at ih ⊢
        simp [← ih]

lemma forall_mem_intercalate {sep : Char} {p : Char → Prop} (hsep : p sep) {as : List (List Char)}
    (h : ∀ a ∈ as, ∀ c ∈ a, p c) : ∀ c ∈ [sep].intercalate as, p c := by
  induction as with
  | nil => exact List.forall_mem_nil _
  | cons a as ih =>
    obtain ⟨ha, has⟩ := List.forall_mem_cons.1 h
    cases as with
    | nil => simpa using ha
    | cons b bs =>
      rw [List.intercalate_cons_cons, List.append_assoc, List.singleton_append,
        List.forall_mem_append, List.forall_mem_cons]
      exact ⟨ha, hsep, ih has⟩

end Text

namespace Version

open Text (IsAscii bytes ofBytes)
open Text.Decimal (IsNumeral value trimZeros)

/-- A text that spells a version: one to three numerals of words, with single dots in between. -/
structure IsSpelled (text : String) (numerals : List (List Char)) : Prop where
  joined : text = ".".intercalate (numerals.map String.ofList)
  count : 1 ≤ numerals.length ∧ numerals.length ≤ 3
  words : ∀ ds ∈ numerals, IsNumeral ds ∧ value ds ≤ 4294967295

namespace IsSpelled

variable {text : String} {numerals : List (List Char)}

lemma toList_eq (h : IsSpelled text numerals) : text.toList = ['.'].intercalate numerals := by
  rw [h.joined, String.toList_intercalate, List.map_map]
  simp [Function.comp_def]

lemma toNat_ofNat_value (h : IsSpelled text numerals) {ds : List Char} (hds : ds ∈ numerals) :
    (UInt32.ofNat (value ds)).toNat = value ds :=
  UInt32.toNat_ofNat_of_lt' (Nat.lt_succ_of_le (h.words ds hds).2)

lemma isAscii (h : IsSpelled text numerals) : IsAscii text := by
  rw [IsAscii, h.toList_eq]
  refine Text.forall_mem_intercalate (by decide) fun ds hds d hd => ?_
  have hrange := Text.Decimal.toNat_of_isDigit ((h.words ds hds).1.2 d hd)
  omega

end IsSpelled

lemma isSpelled_of_parse? {text : String} {v : Version} (h : parse? text = some v) :
    ∃ numerals, IsSpelled text numerals := by
  rw [parse?] at h
  split at h
  · next hlength =>
    obtain ⟨cs, hcs, -⟩ := Option.map_eq_some_iff.1 h
    refine ⟨Text.fields '.' text.toList, ?_, ⟨?_, hlength⟩, fun ds hds => ?_⟩
    · rw [← String.toList_inj, String.toList_intercalate, List.map_map]
      simpa [Function.comp_def] using (Text.intercalate_fields text.toList).symm
    · exact List.length_pos_of_ne_nil (Text.fields_ne_nil '.' text.toList)
    · obtain ⟨c, hc⟩ := Reading.exists_eq_some_of_mem hcs hds
      obtain ⟨hnumeral, hvalue⟩ := Text.Decimal.word?_eq_some.1 hc
      have hlt := c.toNat_lt
      exact ⟨hnumeral, by omega⟩
  · cases h

lemma IsSpelled.parse?_eq {text : String} {numerals : List (List Char)}
    (h : IsSpelled text numerals) :
    parse? text = some ⟨numerals.map fun ds => UInt32.ofNat (value ds)⟩ := by
  have hne : numerals ≠ [] := List.ne_nil_of_length_pos h.count.1
  have hdots : ∀ ds ∈ numerals, '.' ∉ ds := fun ds hds hdot => by
    simpa using (h.words ds hds).1.2 _ hdot
  have hfields : Text.fields '.' text.toList = numerals := by
    rw [h.joined]
    exact Text.fields_intercalate hne hdots
  have hwords : numerals.mapM Text.Decimal.word? =
      some (numerals.map fun ds => UInt32.ofNat (value ds)) := by
    rw [Reading.mapM_eq_some_iff, List.forall₂_map_right_iff, List.forall₂_same]
    exact fun ds hds => Text.Decimal.word?_eq_some.2
      ⟨(h.words ds hds).1, (h.toNat_ofNat_value hds).symm⟩
  simp [parse?, hfields, h.count.2, hwords]

/-- **Exactly what is spelled is read, and what is written is spelled without zeros that do not
count.** A text is read if and only if it is one to three numerals of words with single dots in
between, and then the components are the values of the numerals, and what is written is the text
with the zeros in front of its numerals taken away. A version of one to three components that has
been written is read back. It makes no difference to take a text for the characters that its bytes
are one by one, so the same holds of all texts that are given by bytes. -/
theorem parse?_iff_isSpelled :
    (∀ text v, parse? text = some v → ∃ numerals, IsSpelled text numerals) ∧
    (∀ text numerals, IsSpelled text numerals → ∃ v, parse? text = some v ∧
      v.components.map UInt32.toNat = numerals.map value ∧
      v.text = ".".intercalate (numerals.map fun ds => String.ofList (trimZeros ds))) ∧
    (∀ v : Version, v.components ≠ [] → v.components.length ≤ 3 → parse? v.text = some v) ∧
    ∀ text, parse? (ofBytes (bytes text)) = parse? text := by
  refine ⟨fun _ _ => isSpelled_of_parse?, fun text numerals h => ⟨_, h.parse?_eq, ?_, ?_⟩,
    fun _ => parse?_text, fun text => ?_⟩
  · rw [List.map_map]
    exact List.map_congr_left fun ds hds => h.toNat_ofNat_value hds
  · rw [Version.text, List.map_map]
    refine congrArg _ (List.map_congr_left fun ds hds => congrArg String.ofList ?_)
    rw [← Text.Decimal.toDigits_value (h.words ds hds).1, Text.Decimal.digits,
      h.toNat_ofNat_value hds]
  · by_cases hascii : IsAscii text
    · rw [Text.ofBytes_bytes hascii]
    · have hnone {s : String} (hs : ¬ IsAscii s) : parse? s = none := by
        refine Option.eq_none_iff_forall_not_mem.2 fun v hv => hs ?_
        obtain ⟨numerals, hspelled⟩ := isSpelled_of_parse? hv
        exact hspelled.isAscii
      rw [hnone hascii, hnone (mt Text.isAscii_ofBytes_bytes_iff.1 hascii)]

end Version

end BuildPlanner
