/-!
Cutting text at a separator.

`fields` keeps every piece, empty ones included, so a text with `n` separators has `n + 1`
fields. `cut` stops at the first separator.
-/

namespace BuildPlanner.Text

/-- The pieces of a text between the occurrences of `sep`. -/
def fields (sep : Char) : List Char → List (List Char)
  | [] => [[]]
  | c :: cs =>
    if c = sep then [] :: fields sep cs
    else
      match fields sep cs with
      | [] => [[c]]
      | f :: fs => (c :: f) :: fs

/-- The text before the first `sep` and the text after it; the latter is empty if there is none. -/
def cut (sep : Char) : List Char → List Char × List Char
  | [] => ([], [])
  | c :: cs => if c = sep then ([], cs) else ((c :: (cut sep cs).1), (cut sep cs).2)

@[simp] theorem fields_nil (sep : Char) : fields sep [] = [[]] := rfl

theorem fields_ne_nil (sep : Char) (cs : List Char) : fields sep cs ≠ [] := by
  cases cs with
  | nil => simp
  | cons c cs =>
    simp only [fields]
    split
    · simp
    · split <;> simp

theorem cut_of_notMem {sep : Char} {cs : List Char} (h : sep ∉ cs) : cut sep cs = (cs, []) := by
  induction cs with
  | nil => rfl
  | cons c cs ih =>
    have hc : c ≠ sep := fun e => h (by simp [e])
    have ht : sep ∉ cs := fun m => h (List.mem_cons_of_mem _ m)
    simp [cut, hc, ih ht]

theorem cut_append {sep : Char} {a b : List Char} (h : sep ∉ a) :
    cut sep (a ++ sep :: b) = (a, b) := by
  induction a with
  | nil => simp [cut]
  | cons c cs ih =>
    have hc : c ≠ sep := fun e => h (by simp [e])
    have ht : sep ∉ cs := fun m => h (List.mem_cons_of_mem _ m)
    simp [cut, hc, ih ht]

end BuildPlanner.Text
