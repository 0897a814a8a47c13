import BuildPlanner.SortedMap
import Mathlib.Tactic.Lemma

/-!
Entries and keys of maps that are put together from entries.
-/

namespace BuildPlanner.SortedMap

variable {α β : Type} [Ord α] [Std.TransOrd α] [Std.LawfulEqOrd α] [DecidableEq α]

omit [Std.TransOrd α] [Std.LawfulEqOrd α] [DecidableEq α] in
lemma mem_keys {m : SortedMap α β} {k : α} : k ∈ m.keys ↔ ∃ v, (k, v) ∈ m.entries := by
  simp [keys]

omit [Std.TransOrd α] [DecidableEq α] in
lemma get?_eq_none_iff {m : SortedMap α β} {k : α} : m.get? k = none ↔ k ∉ m.keys := by
  rw [mem_keys, Option.eq_none_iff_forall_ne_some]
  simp [← get?_eq_some_iff]

lemma mem_insertNew {m : SortedMap α β} {k : α} {v : β} {e : α × β} :
    e ∈ (m.insertNew k v).entries ↔ e ∈ m.entries ∨ e = (k, v) ∧ m.get? k = none := by
  obtain ⟨j, w⟩ := e
  rw [← get?_eq_some_iff, ← get?_eq_some_iff, get?_insertNew]
  by_cases hj : j = k
  · subst hj
    cases h : m.get? j with
    | none => simp [eq_comm]
    | some u => simp
  · simp [hj]

lemma mem_keys_insertNew {m : SortedMap α β} {k j : α} {v : β} :
    j ∈ (m.insertNew k v).keys ↔ j ∈ m.keys ∨ j = k := by
  simp only [mem_keys, mem_insertNew, exists_or, Prod.mk.injEq]
  refine ⟨?_, ?_⟩
  · rintro (h | ⟨w, ⟨rfl, -⟩, -⟩)
    · exact .inl h
    · exact .inr rfl
  · rintro (h | rfl)
    · exact .inl h
    · rcases h : m.get? j with _ | w
      · exact .inr ⟨v, ⟨rfl, rfl⟩, rfl⟩
      · exact .inl ⟨w, get?_eq_some_iff.1 h⟩

/-! ### Lists of new entries -/

lemma mem_of_mem_foldl {es : List (α × β)} {m : SortedMap α β} {e : α × β}
    (h : e ∈ (es.foldl (fun m e => m.insertNew e.1 e.2) m).entries) :
    e ∈ m.entries ∨ e ∈ es := by
  induction es generalizing m with
  | nil => exact .inl h
  | cons x es ih =>
    rcases ih h with h | h
    · rcases mem_insertNew.1 h with h | ⟨rfl, -⟩
      · exact .inl h
      · exact .inr (by simp)
    · exact .inr (by simp [h])

lemma mem_keys_foldl {es : List (α × β)} {m : SortedMap α β} {k : α} :
    k ∈ (es.foldl (fun m e => m.insertNew e.1 e.2) m).keys ↔
      k ∈ m.keys ∨ k ∈ es.map Prod.fst := by
  induction es generalizing m with
  | nil => simp
  | cons x es ih => rw [List.foldl_cons, ih, mem_keys_insertNew, List.map_cons, List.mem_cons,
      or_assoc]

omit [Std.TransOrd α] [Std.LawfulEqOrd α] [DecidableEq α] in
@[simp] lemma keys_empty : (empty : SortedMap α β).keys = [] := rfl

lemma mem_of_mem_ofList {es : List (α × β)} {e : α × β} (h : e ∈ (ofList es).entries) :
    e ∈ es :=
  (mem_of_mem_foldl h).resolve_left List.not_mem_nil

lemma mem_keys_ofList {es : List (α × β)} {k : α} :
    k ∈ (ofList es).keys ↔ k ∈ es.map Prod.fst := by
  rw [ofList, mem_keys_foldl, keys_empty]
  simp

lemma mem_of_mem_merge {m n : SortedMap α β} {e : α × β} (h : e ∈ (m.merge n).entries) :
    e ∈ m.entries ∨ e ∈ n.entries :=
  mem_of_mem_foldl h

lemma mem_keys_merge {m n : SortedMap α β} {k : α} :
    k ∈ (m.merge n).keys ↔ k ∈ m.keys ∨ k ∈ n.keys :=
  mem_keys_foldl

omit [Std.TransOrd α] [Std.LawfulEqOrd α] [DecidableEq α] in
lemma pairwise_keys (m : SortedMap α β) : m.keys.Pairwise fun a b => compare a b = .lt := by
  rw [keys, List.pairwise_map]
  exact m.sorted

omit [Std.TransOrd α] [DecidableEq α] in
lemma nodup_keys (m : SortedMap α β) : m.keys.Nodup :=
  m.pairwise_keys.imp fun {a b} hlt hab => by
    rw [hab, Std.ReflOrd.compare_self] at hlt
    cases hlt

omit [Std.TransOrd α] [DecidableEq α] in
lemma length_entries_lt_two {m : SortedMap α β} :
    m.entries.length < 2 ↔ ∀ j ∈ m.keys, ∀ k ∈ m.keys, j = k := by
  obtain ⟨entries, hsorted⟩ := m
  rw [keys]
  match entries with
  | [] => simp
  | [e] => simp
  | e :: f :: es =>
    have hlt : compare e.1 f.1 = .lt := (List.pairwise_cons.1 hsorted).1 f (by simp)
    refine iff_of_false (by simp) fun h => ?_
    rw [h e.1 (by simp) f.1 (by simp)] at hlt
    simp [Std.ReflCmp.compare_self] at hlt

end BuildPlanner.SortedMap
