import Mathlib.Data.String.Basic

/-!
Texts and the bytes that they are stored in.

A text is stored in UTF-8, in which the first byte of a character tells how many bytes follow, and
longer forms begin with greater bytes. So of two characters the smaller one has the smaller bytes,
whatever comes after them. A character beyond ASCII has no ASCII byte, so a text that has been
taken for its bytes, one by one, still has all of its ASCII characters and no others.
-/

namespace BuildPlanner.Text

/-! ### Order -/

def bytes (s : String) : List UInt8 := s.toUTF8.data.toList

lemma bytes_eq (s : String) : bytes s = s.toList.flatMap String.utf8EncodeChar := by
  rw [bytes, String.toUTF8, ← String.ofList_toList (s := s), String.toByteArray_ofList,
    String.toList_ofList, List.utf8Encode, List.toList_data_toByteArray]

section Digits

variable {m n : Nat} (hm : m < 256) (hn : n < 256)

include hm hn

lemma ofNat_lt_ofNat : UInt8.ofNat m < UInt8.ofNat n ↔ m < n := by
  rw [UInt8.lt_iff_toNat_lt, UInt8.toNat_ofNat_of_lt' hm, UInt8.toNat_ofNat_of_lt' hn]

lemma ofNat_eq_ofNat : UInt8.ofNat m = UInt8.ofNat n ↔ m = n := by
  rw [← UInt8.toNat_inj, UInt8.toNat_ofNat_of_lt' hm, UInt8.toNat_ofNat_of_lt' hn]

end Digits

/-- Numbers are compared by what is left of them without six bits, then by these. -/
lemma div_lt_or_mod_lt {x y : Nat} (h : x < y) :
    x / 64 < y / 64 ∨ x / 64 = y / 64 ∧ x % 64 < y % 64 := by
  omega

/-- A smaller character has smaller bytes, whatever follows. -/
lemma utf8EncodeChar_append_lt {c d : Char} (h : c < d) (cs ds : List UInt8) :
    String.utf8EncodeChar c ++ cs < String.utf8EncodeChar d ++ ds := by
  have hlt : c.val.toNat < d.val.toNat := h
  have hd : d.val.toNat < 0x110000 := by
    rcases d.valid with hd | ⟨-, hd⟩ <;> omega
  unfold String.utf8EncodeChar
  generalize c.val.toNat = x at hlt ⊢
  generalize d.val.toNat = y at hlt hd ⊢
  have hlast := div_lt_or_mod_lt hlt
  have hthird : x / 64 < y / 64 → x / 4096 < y / 4096 ∨
      x / 4096 = y / 4096 ∧ x / 64 % 64 < y / 64 % 64 := fun h => by
    have := div_lt_or_mod_lt h
    omega
  have hsecond : x / 4096 < y / 4096 → x / 262144 < y / 262144 ∨
      x / 262144 = y / 262144 ∧ x / 4096 % 64 < y / 4096 % 64 := fun h => by
    have := div_lt_or_mod_lt h
    omega
  have hfirst : x / 262144 % 8 = x / 262144 ∧ y / 262144 % 8 = y / 262144 := by omega
  dsimp only
  split_ifs
  all_goals
    simp (disch := omega) only [List.cons_append, List.nil_append, List.cons_lt_cons_iff,
      ofNat_lt_ofNat, ofNat_eq_ofNat]
    omega

lemma flatMap_utf8EncodeChar_lt {cs ds : List Char} (h : cs < ds) :
    cs.flatMap String.utf8EncodeChar < ds.flatMap String.utf8EncodeChar := by
  induction h with
  | @nil d ds =>
    have hpos := d.utf8Size_pos
    rw [← String.length_utf8EncodeChar] at hpos
    obtain ⟨b, bs, hbytes⟩ := List.exists_cons_of_length_pos hpos
    rw [List.flatMap_cons, hbytes]
    exact .nil
  | rel h => exact utf8EncodeChar_append_lt h _ _
  | cons _ ih => exact List.append_left_lt ih

/-- **The order of texts is that of their bytes.** -/
theorem bytes_lt_bytes {s t : String} : bytes s < bytes t ↔ s < t := by
  have hmono {s t : String} (h : s < t) : bytes s < bytes t := by
    rw [bytes_eq, bytes_eq]
    exact flatMap_utf8EncodeChar_lt (String.lt_iff_toList_lt.1 h)
  refine ⟨fun h => ?_, hmono⟩
  rcases lt_trichotomy s t with hlt | rfl | hgt
  · exact hlt
  · exact absurd h (List.lt_irrefl _)
  · exact absurd h (List.lt_asymm (hmono hgt))

/-! ### Texts taken for their bytes -/

def ofBytes (bs : List UInt8) : String := String.ofList (bs.map Char.ofUInt8)

/-- The characters that stand for the bytes of a character. -/
def byteChars (c : Char) : List Char := (String.utf8EncodeChar c).map Char.ofUInt8

/-- A text taken for its bytes, one by one. -/
def bytewise (s : String) : String := ofBytes (bytes s)

def IsAscii (s : String) : Prop := ∀ c ∈ s.toList, c.toNat < 128

section ByteChars

variable {b c : Char}

lemma byteChars_ne_nil (c : Char) : byteChars c ≠ [] := by
  simp [byteChars]

lemma toNat_ofUInt8 (b : UInt8) : (Char.ofUInt8 b).toNat = b.toNat := UInt8.toNat_toUInt32 b

lemma byteChars_of_lt (h : c.toNat < 128) : byteChars c = [c] := by
  have hle : c.val.toNat ≤ 127 := Nat.le_of_lt_succ h
  have hbyte : Char.ofUInt8 (UInt8.ofNat c.val.toNat) = c := by
    rw [← Char.toNat_inj, toNat_ofUInt8]
    exact UInt8.toNat_ofNat_of_lt' (Nat.lt_trans h (by decide))
  simp only [byteChars, String.utf8EncodeChar, if_pos hle, List.map_singleton, hbyte]

lemma le_of_mem_byteChars (h : 128 ≤ c.toNat) : ∀ b ∈ byteChars c, 128 ≤ b.toNat := by
  have hle : ¬ c.val.toNat ≤ 127 := Nat.not_le_of_lt h
  simp only [byteChars, List.forall_mem_map, toNat_ofUInt8]
  unfold String.utf8EncodeChar
  generalize c.val.toNat = n at hle ⊢
  dsimp only
  split_ifs <;> simp <;> omega

lemma eq_or_le_of_mem_byteChars (h : b ∈ byteChars c) : b = c ∨ 128 ≤ b.toNat := by
  by_cases hc : c.toNat < 128
  · rw [byteChars_of_lt hc] at h
    exact .inl (List.mem_singleton.1 h)
  · exact .inr (le_of_mem_byteChars (Nat.le_of_not_lt hc) b h)

lemma forall_byteChars_lt_iff : (∀ b ∈ byteChars c, b.toNat < 128) ↔ c.toNat < 128 := by
  by_cases hc : c.toNat < 128
  · simp [byteChars_of_lt hc, hc]
  · refine iff_of_false (fun hall => ?_) hc
    obtain ⟨b, hb⟩ := List.exists_mem_of_ne_nil _ (byteChars_ne_nil c)
    exact Nat.not_lt.2 (le_of_mem_byteChars (Nat.le_of_not_lt hc) b hb) (hall b hb)

lemma mem_byteChars_of_mem_head? {cs : List Char} (h : b ∈ (byteChars c ++ cs).head?) :
    b ∈ byteChars c := by
  obtain ⟨x, xs, hx⟩ := List.exists_cons_of_ne_nil (byteChars_ne_nil c)
  rw [hx, List.cons_append, List.head?_cons, Option.mem_some_iff] at h
  rw [hx, ← h]
  exact List.mem_cons_self

end ByteChars

lemma toList_bytewise (s : String) : (bytewise s).toList = s.toList.flatMap byteChars := by
  rw [bytewise, ofBytes, String.toList_ofList, bytes_eq, List.map_flatMap]
  rfl

lemma bytewise_append (s t : String) : bytewise (s ++ t) = bytewise s ++ bytewise t := by
  simp [← String.toList_inj, toList_bytewise]

lemma ofBytes_bytes {s : String} (h : IsAscii s) : ofBytes (bytes s) = s := by
  change bytewise s = s
  rw [← String.toList_inj, toList_bytewise, List.flatMap_congr fun c hc => byteChars_of_lt (h c hc),
    List.flatMap_singleton']

lemma isAscii_ofBytes_bytes_iff {s : String} : IsAscii (ofBytes (bytes s)) ↔ IsAscii s := by
  change IsAscii (bytewise s) ↔ _
  simp only [IsAscii, toList_bytewise, List.forall_mem_flatMap, forall_byteChars_lt_iff]

end BuildPlanner.Text
