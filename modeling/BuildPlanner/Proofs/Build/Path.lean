import BuildPlanner.Build.Parameters
import Mathlib.Data.List.DropRight
import Mathlib.Tactic.Lemma

/-!
Paths into build directories.

A build directory is not empty and does not end with a slash, so what is put into it stands behind
a slash of its own. Two such paths are equal if directories and names agree, and otherwise only if
one directory lies within the other and a name leads there.
-/

namespace BuildPlanner.Build

/-! ### Names and directories -/

/-- A name without a slash in front, which a path takes for the separator. -/
def relative (name : String) : String :=
  if name.toList.head? = some '/' then String.ofList name.toList.tail else name

/-- The directory `q` lies within the directory `p`, where the name `x` leads to `y` in `q`. -/
def Within (p x q y : String) : Prop := ∃ between, q = p ++ "/" ++ between ∧ x = between ++ "/" ++ y

/-- What stands behind the last slash. -/
def leaf (path : String) : List Char := path.toList.rtakeWhile (· ≠ '/')

lemma relative_append {s t : String} (ht : t.toList.head? ≠ some '/') :
    relative (s ++ t) = relative s ++ t := by
  by_cases hs : s = ""
  · subst hs
    simp [relative, ht]
  · obtain ⟨c, cs, hcs⟩ : ∃ c cs, s.toList = c :: cs :=
      List.exists_cons_of_ne_nil fun h => hs (by simpa using h)
    by_cases hc : c = '/' <;> simp [relative, hcs, hc]

lemma leaf_append_slash (p x : String) : leaf (p ++ "/" ++ x) = leaf x := by
  simp only [leaf, List.rtakeWhile, String.toList_append, List.reverse_append]
  rw [List.takeWhile_append]
  split
  · next h =>
    rw [(List.takeWhile_prefix _).eq_of_length h]
    simp
  · rfl

lemma leaf_append {s t : String} (ht : '/' ∉ t.toList) : leaf (s ++ t) = leaf s ++ t.toList := by
  have hall : ∀ c ∈ t.toList.reverse, decide (c ≠ '/') = true := by
    intro c hc
    rw [List.mem_reverse] at hc
    simpa using ne_of_mem_of_not_mem hc ht
  simp only [leaf, List.rtakeWhile, String.toList_append, List.reverse_append]
  rw [List.takeWhile_append_of_pos hall, List.reverse_append, List.reverse_reverse]

lemma leaf_relative (s : String) : leaf (relative s) = leaf s := by
  unfold relative
  split
  · next h =>
    obtain ⟨cs, hcs⟩ : ∃ cs, s.toList = '/' :: cs := List.head?_eq_some_iff.1 h
    have hs : s = "" ++ "/" ++ String.ofList cs := by simp [← String.toList_inj, hcs]
    rw [hcs, List.tail_cons]
    conv_rhs => rw [hs, leaf_append_slash]
  · rfl

/-- Two paths agree if directories and names do, or if one directory lies within the other. -/
lemma append_slash_eq_iff {p q x y : String} : p ++ "/" ++ x = q ++ "/" ++ y ↔
    p = q ∧ x = y ∨ Within p x q y ∨ Within q y p x := by
  refine ⟨fun h => ?_, ?_⟩
  · have h : p.toList ++ '/' :: x.toList = q.toList ++ '/' :: y.toList := by
      simpa [← String.toList_inj] using h
    -- The longer directory is the other one, or begins with it and a slash.
    rcases List.append_eq_append_iff.1 h with ⟨as, hq, hx⟩ | ⟨as, hp, hy⟩
    · cases as with
      | nil => exact .inl (by simp_all [← String.toList_inj])
      | cons c as =>
        obtain ⟨rfl, hx⟩ := List.cons.inj hx
        exact .inr (.inl ⟨String.ofList as, by simp [← String.toList_inj, hq],
          by simpa [← String.toList_inj] using hx⟩)
    · cases as with
      | nil => exact .inl (by simp_all [← String.toList_inj])
      | cons c as =>
        obtain ⟨rfl, hy⟩ := List.cons.inj hy
        exact .inr (.inr ⟨String.ofList as, by simp [← String.toList_inj, hp],
          by simpa [← String.toList_inj] using hy⟩)
  · rintro (⟨rfl, rfl⟩ | ⟨between, rfl, rfl⟩ | ⟨between, rfl, rfl⟩)
    · rfl
    · simp [String.append_assoc]
    · simp [String.append_assoc]

/-! ### Build directories -/

lemma appendPath_of_getLast? {path : String} {c : Char} (hlast : path.toList.getLast? = some c)
    (hc : c ≠ '/') (component : String) :
    appendPath path component = path ++ "/" ++ relative component := by
  have hne : path ≠ "" := by
    rintro rfl
    cases hlast
  have hslash : path.toList.getLast? ≠ some '/' := by
    rw [hlast]
    simpa using hc
  rw [appendPath, if_neg hslash, relative]
  by_cases hhead : component.toList.head? = some '/'
  · obtain ⟨cs, hcs⟩ : ∃ cs, component.toList = '/' :: cs := List.head?_eq_some_iff.1 hhead
    simp [hne, hcs, ← String.toList_inj]
  · simp [hne, hhead]

lemma exists_appendPath (path : String) {component : String}
    (h : component.toList.head? ≠ some '/') : ∃ front, appendPath path component =
      front ++ component := by
  have hdrop : component.toList.dropWhile (fun c => decide (c = '/')) = component.toList := by
    cases hcs : component.toList with
    | nil => rfl
    | cons c cs => simp_all
  unfold appendPath
  split
  · exact ⟨path, by rw [hdrop, String.ofList_toList]⟩
  · split
    · exact ⟨path, rfl⟩
    · exact ⟨path ++ "/", rfl⟩

lemma getLast?_buildPath (b : Parameters) :
    ∃ c, b.buildPath.toList.getLast? = some c ∧ c ≠ '/' := by
  have hhead : b.configuration.label.toList.head? ≠ some '/' := by
    cases b.configuration <;> decide
  obtain ⟨front, hfront⟩ := exists_appendPath b.dataPath hhead
  rw [Parameters.buildPath, hfront]
  cases b.configuration with
  | debug => exact ⟨'g', by simp [Configuration.label], by decide⟩
  | release => exact ⟨'e', by simp [Configuration.label], by decide⟩

lemma appendPath_buildPath (b : Parameters) (component : String) :
    appendPath b.buildPath component = b.buildPath ++ "/" ++ relative component := by
  obtain ⟨c, hlast, hc⟩ := getLast?_buildPath b
  exact appendPath_of_getLast? hlast hc component

end BuildPlanner.Build
