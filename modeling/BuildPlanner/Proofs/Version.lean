import BuildPlanner.Proofs.Reading
import BuildPlanner.Proofs.Text.Decimal
import BuildPlanner.Version

/-!
The written form of versions: what `Version.text` writes is read back by `Version.parse?`.
-/

namespace BuildPlanner

/-! ### Fields -/

namespace Text

variable {sep : Char}

lemma fields_of_notMem {a : List Char} (h : sep ∉ a) : fields sep a = [a] := by
  induction a with
  | nil => rfl
  | cons c cs ih =>
    have hc : c ≠ sep := fun e => h (by simp [e])
    have ht : sep ∉ cs := fun hm => h (by simp [hm])
    rw [fields, if_neg hc, ih ht]

lemma fields_append {a b : List Char} (h : sep ∉ a) :
    fields sep (a ++ sep :: b) = a :: fields sep b := by
  induction a with
  | nil => simp [fields]
  | cons c cs ih =>
    have hc : c ≠ sep := fun e => h (by simp [e])
    have ht : sep ∉ cs := fun hm => h (by simp [hm])
    rw [List.cons_append, fields, if_neg hc, ih ht]

lemma fields_intercalate {as : List (List Char)} (hne : as ≠ []) (h : ∀ a ∈ as, sep ∉ a) :
    fields sep ((String.ofList [sep]).intercalate (as.map String.ofList)).toList = as := by
  induction as with
  | nil => exact absurd rfl hne
  | cons a as ih =>
    cases as with
    | nil =>
      have ha := fields_of_notMem (h a (by simp))
      simpa [String.intercalate_singleton] using ha
    | cons b bs =>
      have hrest := ih (by simp) fun x hx => h x (by simp [hx])
      rw [List.map_cons] at hrest
      rw [List.map_cons, List.map_cons, String.intercalate_cons_cons]
      have hlist : (String.ofList a ++ String.ofList [sep] ++
          (String.ofList [sep]).intercalate (String.ofList b :: bs.map String.ofList)).toList =
          a ++ sep :: ((String.ofList [sep]).intercalate
            (String.ofList b :: bs.map String.ofList)).toList := by
        simp
      rw [hlist, fields_append (h a (by simp)), hrest]

end Text

namespace Version

/-- **A version of one to three components that has been written is read back.** -/
theorem parse?_text {v : Version} (hv : v.components ≠ []) (hlength : v.components.length ≤ 3) :
    parse? v.text = some v := by
  have hfields : Text.fields '.' v.text.toList = v.components.map Text.Decimal.digits := by
    have hall : ∀ ds ∈ v.components.map Text.Decimal.digits, '.' ∉ ds := by
      intro ds hds
      obtain ⟨c, -, rfl⟩ := List.mem_map.1 hds
      exact Text.Decimal.dot_notMem_digits c
    have hpieces := Text.fields_intercalate (by simpa using hv) hall
    rw [List.map_map] at hpieces
    exact hpieces
  have hwords : (v.components.map Text.Decimal.digits).mapM Text.Decimal.word? =
      some v.components := by
    simpa using Reading.mapM_map_eq_some (h := id) (l := v.components) fun c _ =>
      Text.Decimal.word?_digits c
  rw [parse?, hfields]
  simp [hlength, hwords]

lemma length_of_parse? {text : String} {v : Version} (h : parse? text = some v) :
    v.components ≠ [] ∧ v.components.length ≤ 3 := by
  simp only [parse?] at h
  split at h
  · next hle =>
    obtain ⟨cs, hcs, rfl⟩ := Option.map_eq_some_iff.1 h
    have hlength := (Reading.mapM_eq_some_iff.1 hcs).length_eq
    have hfields := List.length_pos_of_ne_nil (Text.fields_ne_nil '.' text.toList)
    have hpos : 0 < cs.length := by omega
    have hle : cs.length ≤ 3 := by omega
    exact ⟨List.ne_nil_of_length_pos hpos, hle⟩
  · cases h

lemma same_refl (v : Version) : v.same v := by
  have hcompare : ∀ cs : List UInt32, compareComponents cs cs = .eq := by
    intro cs
    induction cs with
    | nil => rfl
    | cons c cs ih => simp [compareComponents, ih]
  simp [same, hcompare]

end Version

end BuildPlanner
