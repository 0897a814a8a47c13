import Mathlib.Data.List.Forall2

/-!
Lists that are read item by item.
-/

namespace BuildPlanner.Reading

variable {α β γ : Type}

lemma mapM_eq_some_iff {f : α → Option β} {l : List α} {bs : List β} :
    l.mapM f = some bs ↔ List.Forall₂ (fun a b => f a = some b) l bs := by
  induction l generalizing bs with
  | nil => cases bs <;> simp
  | cons a l ih =>
    rw [List.mapM_cons, List.forall₂_cons_left_iff]
    simp only [Option.bind_eq_bind, Option.bind_eq_some_iff, Option.pure_def, Option.some.injEq, ih]
    refine ⟨?_, ?_⟩
    · rintro ⟨b, hb, bs, hbs, rfl⟩
      exact ⟨b, bs, hb, hbs, rfl⟩
    · rintro ⟨b, bs, hb, hbs, rfl⟩
      exact ⟨b, hb, bs, hbs, rfl⟩

lemma exists_of_mem {f : α → Option β} {l : List α} {bs : List β} (h : l.mapM f = some bs) {b : β}
    (hb : b ∈ bs) : ∃ a ∈ l, f a = some b := by
  induction mapM_eq_some_iff.1 h with
  | nil => cases hb
  | @cons a c l bs hac hrest ih =>
    rcases List.mem_cons.1 hb with rfl | hb
    · exact ⟨a, by simp, hac⟩
    · obtain ⟨x, hx, hxb⟩ := ih (mapM_eq_some_iff.2 hrest) hb
      exact ⟨x, by simp [hx], hxb⟩

lemma exists_eq_some_of_mem {f : α → Option β} {l : List α} {bs : List β} (h : l.mapM f = some bs)
    {a : α} (ha : a ∈ l) : ∃ b, f a = some b := by
  induction mapM_eq_some_iff.1 h with
  | nil => cases ha
  | @cons c b l bs hcb hrest ih =>
    rcases List.mem_cons.1 ha with rfl | ha
    · exact ⟨b, hcb⟩
    · exact ih (mapM_eq_some_iff.2 hrest) ha

lemma mapM_map_eq_some {write : α → β} {read : β → Option γ} {h : α → γ} {l : List α}
    (hl : ∀ a ∈ l, read (write a) = some (h a)) : (l.map write).mapM read = some (l.map h) := by
  rw [mapM_eq_some_iff, List.forall₂_map_left_iff, List.forall₂_map_right_iff, List.forall₂_same]
  exact hl

end BuildPlanner.Reading
