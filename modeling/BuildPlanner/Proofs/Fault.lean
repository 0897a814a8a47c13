import BuildPlanner.Fault
import Mathlib.Data.List.Forall2

/-!
Computations that end without a fault, step by step and along lists.
-/

namespace BuildPlanner.Fault

variable {ε α β : Type}

@[simp] lemma bind_eq_ok {x : Except ε α} {f : α → Except ε β} {b : β} :
    x >>= f = .ok b ↔ ∃ a, x = .ok a ∧ f a = .ok b := by
  cases x <;> simp [bind, Except.bind]

@[simp] lemma pure_eq_ok {a b : α} : (pure a : Except ε α) = .ok b ↔ a = b := by
  simp [pure, Except.pure]

@[simp] lemma throw_ne_ok {e : ε} {b : α} : (throw e : Except ε α) ≠ .ok b := by
  simp [throw, throwThe, MonadExceptOf.throw]

lemma map_eq_ok {x : Except ε α} {f : α → β} {b : β} :
    x.map f = .ok b ↔ ∃ a, x = .ok a ∧ f a = b := by
  cases x <;> simp [Except.map]

lemma toOption_eq_some {x : Except ε α} {a : α} : x.toOption = some a ↔ x = .ok a := by
  cases x <;> simp [Except.toOption]

lemma mapM_eq_ok_iff {f : α → Except ε β} {l : List α} {bs : List β} :
    l.mapM f = .ok bs ↔ List.Forall₂ (fun a b => f a = .ok b) l bs := by
  induction l generalizing bs with
  | nil => cases bs <;> simp
  | cons a l ih =>
    rw [List.mapM_cons, bind_eq_ok, List.forall₂_cons_left_iff]
    simp only [bind_eq_ok, pure_eq_ok, ih]
    refine ⟨?_, ?_⟩
    · rintro ⟨b, hb, bs, hbs, rfl⟩
      exact ⟨b, bs, hb, hbs, rfl⟩
    · rintro ⟨b, bs, hb, hbs, rfl⟩
      exact ⟨b, hb, bs, hbs, rfl⟩

lemma mapM_eq_ok_of_forall {f : α → Except ε β} {l : List α} {h : α → β}
    (hf : ∀ a ∈ l, f a = .ok (h a)) : l.mapM f = .ok (l.map h) := by
  rw [mapM_eq_ok_iff, List.forall₂_map_right_iff, List.forall₂_same]
  exact hf

lemma mem_of_mapM_eq_ok {f : α → Except ε β} {l : List α} {bs : List β} (h : l.mapM f = .ok bs)
    {b : β} : b ∈ bs ↔ ∃ a ∈ l, f a = .ok b := by
  induction mapM_eq_ok_iff.1 h with
  | nil => simp
  | @cons a c l bs hac hrest ih =>
    have ih := ih (mapM_eq_ok_iff.2 hrest)
    rw [List.mem_cons, ih]
    simp [hac, eq_comm]

lemma exists_mapM_eq_ok {f : α → Except ε β} {l : List α} :
    (∃ bs, l.mapM f = .ok bs) ↔ ∀ a ∈ l, ∃ b, f a = .ok b := by
  simp only [mapM_eq_ok_iff]
  induction l with
  | nil => simp
  | cons a l ih => simp [List.forall₂_cons_left_iff, ← ih]

/-- A fold ends without a fault if each of its steps does from the states that have `I`. What the
steps do, `R`, is put together along the list, where a step stands for the items `parts a`. -/
lemma exists_foldlM {σ : Type} {f : σ → α → Except ε σ} {parts : α → List β} {I : σ → Prop}
    {R : σ → List β → σ → Prop} (refl : ∀ s, R s [] s)
    (trans : ∀ {s xs s' ys s''}, R s xs s' → R s' ys s'' → R s (xs ++ ys) s'')
    (keeps : ∀ {s xs s'}, I s → R s xs s' → I s') {l : List α}
    (step : ∀ a ∈ l, ∀ s, I s → ∃ s', f s a = .ok s' ∧ R s (parts a) s') {s : σ} (hs : I s) :
    ∃ s', l.foldlM f s = .ok s' ∧ R s (l.flatMap parts) s' := by
  induction l generalizing s with
  | nil => exact ⟨s, rfl, refl s⟩
  | cons a l ih =>
    obtain ⟨s', hfirst, hR⟩ := step a (by simp) s hs
    obtain ⟨s'', hrest, hR'⟩ := ih (fun b hb => step b (by simp [hb])) (keeps hs hR)
    exact ⟨s'', by simp [List.foldlM_cons, hfirst, hrest], trans hR hR'⟩

end BuildPlanner.Fault
