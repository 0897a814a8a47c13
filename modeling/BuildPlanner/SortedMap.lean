/-!
Finite maps as lists of entries in the order of their keys.

The entries are part of the interface: a map is listed in key order, and two maps with the same
look-ups are equal (`ext_get?`). `insertNew` keeps an entry that is already there.
-/

namespace BuildPlanner

structure SortedMap (α : Type) (β : Type) [Ord α] where
  entries : List (α × β)
  sorted : entries.Pairwise fun a b => compare a.1 b.1 = .lt

namespace SortedMap

variable {α β γ : Type} [Ord α]

instance [DecidableEq α] [DecidableEq β] : DecidableEq (SortedMap α β) := fun m n =>
  if h : m.entries = n.entries then isTrue (by cases m; cases n; simp_all)
  else isFalse fun e => h (e ▸ rfl)

def empty : SortedMap α β := ⟨[], .nil⟩

instance : Inhabited (SortedMap α β) := ⟨empty⟩

def isEmpty (m : SortedMap α β) : Bool := m.entries.isEmpty

def keys (m : SortedMap α β) : List α := m.entries.map Prod.fst

/-- The value of the first entry whose key compares equal. -/
def lookup (k : α) : List (α × β) → Option β
  | [] => none
  | e :: es => if compare k e.1 = .eq then some e.2 else lookup k es

def get? (m : SortedMap α β) (k : α) : Option β := lookup k m.entries

def contains (m : SortedMap α β) (k : α) : Bool := (m.get? k).isSome

/-- Puts an entry in its place; an entry with the same key becomes `update old`. -/
def place (k : α) (v : β) (update : β → β) : List (α × β) → List (α × β)
  | [] => [(k, v)]
  | e :: es =>
    match compare k e.1 with
    | .lt => (k, v) :: e :: es
    | .eq => (e.1, update e.2) :: es
    | .gt => e :: place k v update es

theorem mem_place {k : α} {v : β} {update : β → β} {es : List (α × β)} {x : α × β}
    (h : x ∈ place k v update es) : x = (k, v) ∨ ∃ e ∈ es, x.1 = e.1 := by
  induction es with
  | nil => simp_all [place]
  | cons e es ih =>
    unfold place at h
    split at h
    · rcases List.mem_cons.1 h with h | h
      · exact .inl h
      · exact .inr ⟨x, h, rfl⟩
    · rcases List.mem_cons.1 h with h | h
      · exact .inr ⟨e, by simp, by simp [h]⟩
      · exact .inr ⟨x, by simp [h], rfl⟩
    · rcases List.mem_cons.1 h with h | h
      · exact .inr ⟨e, by simp, by simp [h]⟩
      · rcases ih h with h | ⟨e', he', hx⟩
        · exact .inl h
        · exact .inr ⟨e', by simp [he'], hx⟩

theorem pairwise_place [Std.TransOrd α] {k : α} {v : β} {update : β → β} {es : List (α × β)}
    (h : es.Pairwise fun a b => compare a.1 b.1 = .lt) :
    (place k v update es).Pairwise fun a b => compare a.1 b.1 = .lt := by
  induction es with
  | nil => simp [place]
  | cons e es ih =>
    obtain ⟨he, hes⟩ := List.pairwise_cons.1 h
    unfold place
    split
    · next hk =>
      refine List.pairwise_cons.2 ⟨fun x hx => ?_, h⟩
      rcases List.mem_cons.1 hx with rfl | hx
      · exact hk
      · exact Std.TransCmp.lt_trans hk (he x hx)
    · exact List.pairwise_cons.2 ⟨he, hes⟩
    · next hk =>
      refine List.pairwise_cons.2 ⟨fun x hx => ?_, ih hes⟩
      rcases mem_place hx with rfl | ⟨y, hy, hxy⟩
      · exact Std.OrientedCmp.lt_of_gt hk
      · rw [hxy]; exact he y hy

variable [Std.TransOrd α]

/-- Adds an entry; an entry with the same key is replaced. -/
def insert (m : SortedMap α β) (k : α) (v : β) : SortedMap α β :=
  ⟨place k v (fun _ => v) m.entries, pairwise_place m.sorted⟩

/-- Adds an entry unless there is one with the same key. -/
def insertNew (m : SortedMap α β) (k : α) (v : β) : SortedMap α β :=
  ⟨place k v id m.entries, pairwise_place m.sorted⟩

/-- The first of several entries with the same key counts. -/
def ofList (es : List (α × β)) : SortedMap α β :=
  es.foldl (fun m e => m.insertNew e.1 e.2) empty

/-- Adds the entries of `n` whose keys are new in `m`. -/
def merge (m n : SortedMap α β) : SortedMap α β :=
  n.entries.foldl (fun m e => m.insertNew e.1 e.2) m

/-! ### Look-ups -/

omit [Std.TransOrd α] in
@[simp] theorem get?_empty (k : α) : (empty : SortedMap α β).get? k = none := rfl

omit [Std.TransOrd α] in
theorem lookup_eq_none_of_lt {k : α} {es : List (α × β)} (h : ∀ e ∈ es, compare k e.1 = .lt) :
    lookup k es = none := by
  induction es with
  | nil => rfl
  | cons e es ih =>
    have he := h e (by simp)
    simp [lookup, he, ih fun x hx => h x (by simp [hx])]

theorem lookup_place_self {k : α} {v : β} {update : β → β} {es : List (α × β)}
    (hs : es.Pairwise fun a b => compare a.1 b.1 = .lt) :
    lookup k (place k v update es) = some ((lookup k es).elim v update) := by
  induction es with
  | nil => simp [place, lookup, Std.ReflCmp.compare_self]
  | cons e es ih =>
    obtain ⟨he, hes⟩ := List.pairwise_cons.1 hs
    unfold place
    split
    · next h =>
      have : lookup k es = none :=
        lookup_eq_none_of_lt fun x hx => Std.TransCmp.lt_trans h (he x hx)
      simp [lookup, h, this, Std.ReflCmp.compare_self]
    · next h => simp [lookup, h]
    · next h => simp [lookup, h, ih hes]

theorem lookup_place_of_ne {k j : α} {v : β} {update : β → β} {es : List (α × β)}
    (hj : compare j k ≠ .eq) : lookup j (place k v update es) = lookup j es := by
  induction es with
  | nil => simp [place, lookup, hj]
  | cons e es ih =>
    unfold place
    split
    · simp [lookup, hj]
    · next h =>
      have hje : compare j e.1 ≠ .eq := fun hc =>
        hj (Std.TransCmp.eq_trans hc (Std.OrientedCmp.eq_symm h))
      simp [lookup, hje]
    · by_cases hc : compare j e.1 = .eq <;> simp [lookup, hc, ih]

variable [Std.LawfulEqOrd α] [DecidableEq α]

theorem get?_insert (m : SortedMap α β) (k j : α) (v : β) :
    (m.insert k v).get? j = if j = k then some v else m.get? j := by
  by_cases h : j = k
  · subst h
    simp only [insert, get?, lookup_place_self m.sorted, if_true]
    cases lookup j m.entries <;> rfl
  · rw [if_neg h]
    exact lookup_place_of_ne fun e => h (Std.LawfulEqCmp.eq_of_compare e)

theorem get?_insertNew (m : SortedMap α β) (k j : α) (v : β) :
    (m.insertNew k v).get? j = if j = k then some ((m.get? k).getD v) else m.get? j := by
  by_cases h : j = k
  · subst h
    simp only [insertNew, get?, lookup_place_self m.sorted, if_true]
    cases lookup j m.entries <;> rfl
  · rw [if_neg h]
    exact lookup_place_of_ne fun e => h (Std.LawfulEqCmp.eq_of_compare e)

omit [Std.TransOrd α] [DecidableEq α] in
theorem lookup_eq_some_iff {k : α} {v : β} {es : List (α × β)}
    (hs : es.Pairwise fun a b => compare a.1 b.1 = .lt) :
    lookup k es = some v ↔ (k, v) ∈ es := by
  induction es with
  | nil => simp [lookup]
  | cons e es ih =>
    obtain ⟨he, hes⟩ := List.pairwise_cons.1 hs
    by_cases hc : compare k e.1 = .eq
    · have hk : k = e.1 := Std.LawfulEqCmp.eq_of_compare hc
      have hno : (k, v) ∉ es := fun hm => by
        have := he _ hm
        rw [← hk] at this
        simp [Std.ReflCmp.compare_self] at this
      simp only [lookup, hc, if_true, Option.some.injEq, List.mem_cons, hno, or_false]
      constructor
      · rintro rfl; rw [hk]
      · intro h; rw [← h]
    · have hk : ¬ (k, v) = e := fun h => hc (by rw [← h]; exact Std.ReflCmp.compare_self)
      simp only [lookup, hc, if_false, List.mem_cons, hk, false_or]
      exact ih hes

omit [Std.TransOrd α] [DecidableEq α] in
theorem get?_eq_some_iff {m : SortedMap α β} {k : α} {v : β} :
    m.get? k = some v ↔ (k, v) ∈ m.entries :=
  lookup_eq_some_iff m.sorted

omit [DecidableEq α] [Std.LawfulEqOrd α] in
theorem eq_of_mem_iff {l₁ l₂ : List (α × β)}
    (h₁ : l₁.Pairwise fun a b => compare a.1 b.1 = .lt)
    (h₂ : l₂.Pairwise fun a b => compare a.1 b.1 = .lt) (h : ∀ x, x ∈ l₁ ↔ x ∈ l₂) :
    l₁ = l₂ := by
  have irrefl : ∀ x : α × β, compare x.1 x.1 ≠ .lt := fun x => by
    simp [Std.ReflCmp.compare_self]
  induction l₁ generalizing l₂ with
  | nil =>
    cases l₂ with
    | nil => rfl
    | cons b bs => exact absurd ((h b).2 (by simp)) (by simp)
  | cons a as ih =>
    cases l₂ with
    | nil => exact absurd ((h a).1 (by simp)) (by simp)
    | cons b bs =>
      obtain ⟨ha, has⟩ := List.pairwise_cons.1 h₁
      obtain ⟨hb, hbs⟩ := List.pairwise_cons.1 h₂
      have hab : a = b := by
        rcases List.mem_cons.1 ((h a).1 (by simp)) with e | hm
        · exact e
        · rcases List.mem_cons.1 ((h b).2 (by simp)) with e | hm'
          · exact e.symm
          · exact absurd (Std.TransCmp.lt_trans (ha b hm') (hb a hm)) (irrefl a)
      subst hab
      refine congrArg _ (ih has hbs fun x => ⟨fun hx => ?_, fun hx => ?_⟩)
      · rcases List.mem_cons.1 ((h x).1 (by simp [hx])) with rfl | hm
        · exact absurd (ha x hx) (irrefl x)
        · exact hm
      · rcases List.mem_cons.1 ((h x).2 (by simp [hx])) with rfl | hm
        · exact absurd (hb x hx) (irrefl x)
        · exact hm

omit [DecidableEq α] in
theorem ext_get? {m n : SortedMap α β} (h : ∀ k, m.get? k = n.get? k) : m = n := by
  have he : m.entries = n.entries := eq_of_mem_iff m.sorted n.sorted fun x => by
    rw [← get?_eq_some_iff, ← get?_eq_some_iff, h]
  cases m; cases n; simp_all

end SortedMap

end BuildPlanner
