import BuildPlanner.Document.Assembly
import BuildPlanner.Proofs.Fault

/-!
Computations that end as a condition says: with a result if it holds, and with a refusal if not.

A refusal that is a fault never counts, so a chain of such computations ends without a fault. The
condition of a chain is the conjunction of the conditions of its links.
-/

namespace BuildPlanner.Document

variable {α β : Type}

/-- A computation that gives a result with a property if the condition holds, and is refused
otherwise, but not for a fault. -/
inductive Judges (x : Except Refusal α) (condition : Prop) (result : α → Prop) : Prop
  | accepts {a : α} (hx : x = .ok a) (h : condition) (ha : result a)
  | refuses {r : Refusal} (hx : x = .error r) (h : ¬ condition) (hr : ∀ f, r ≠ .fault f)

namespace Judges

variable {x : Except Refusal α} {P Q : Prop} {R : α → Prop} {S : β → Prop}

lemma exists_ok_iff (h : Judges x P R) : (∃ a, x = .ok a) ↔ P := by
  cases h with
  | accepts hx h ha => exact iff_of_true ⟨_, hx⟩ h
  | refuses hx h hr =>
    refine iff_of_false ?_ h
    rintro ⟨a, ha⟩
    cases hx.symm.trans ha

lemma ne_fault (h : Judges x P R) (f : Fault) : x ≠ .error (.fault f) := by
  cases h with
  | accepts hx h ha =>
    rw [hx]
    rintro ⟨⟩
  | refuses hx h hr =>
    rw [hx]
    exact fun e => hr f (Except.error.inj e)

lemma of_ok (h : Judges x P R) {a : α} (ha : x = .ok a) : P ∧ R a := by
  cases h with
  | accepts hx h hr =>
    obtain rfl := Except.ok.inj (hx.symm.trans ha)
    exact ⟨h, hr⟩
  | refuses hx h hr => cases hx.symm.trans ha

lemma ok {a : α} (ha : R a) : Judges (.ok a : Except Refusal α) True R := .accepts rfl trivial ha

lemma congr (h : Judges x P R) (hPQ : P ↔ Q) : Judges x Q R := by
  cases h with
  | accepts hx h ha => exact .accepts hx (hPQ.1 h) ha
  | refuses hx h hr => exact .refuses hx (hPQ.not.1 h) hr

lemma bind {f : α → Except Refusal β} (h : Judges x P R)
    (hf : ∀ a, P → R a → Judges (f a) Q S) : Judges (x >>= f) (P ∧ Q) S := by
  cases h with
  | accepts hx h ha =>
    rw [hx]
    exact (hf _ h ha).congr (by simp [h])
  | refuses hx h hr =>
    rw [hx]
    exact .refuses rfl (fun hc => h hc.1) hr

lemma known {y : Except Fault β} {b : β} {f : β → Except Refusal α} (hy : y = .ok b)
    (h : Judges (f b) P R) : Judges (step y >>= f) P R := by
  rw [hy]
  exact h

lemma guard {c : Prop} [Decidable c] {r : Refusal} {k : Unit → Except Refusal α}
    (hr : ∀ f, r ≠ .fault f) (h : ¬ c → Judges (k ()) P R) :
    Judges (if c then throw r >>= k else k ()) (¬ c ∧ P) R := by
  by_cases hc : c
  · rw [if_pos hc]
    exact .refuses rfl (fun h => h.1 hc) hr
  · rw [if_neg hc]
    exact (h hc).congr (by simp [hc])

lemma mapM {ι : Type} {f : ι → Except Refusal α} {l : List ι} {C : ι → Prop} {R : ι → α → Prop}
    (h : ∀ i ∈ l, Judges (f i) (C i) (R i)) :
    Judges (l.mapM f) (∀ i ∈ l, C i) (List.Forall₂ R l) := by
  induction l with
  | nil => exact .accepts rfl (by simp) .nil
  | cons i l ih =>
    rw [List.mapM_cons]
    have hrest := ih fun j hj => h j (by simp [hj])
    refine ((h i (by simp)).bind (Q := ∀ j ∈ l, C j) fun a _ ha => ?_).congr
      List.forall_mem_cons.symm
    refine (hrest.bind (Q := True) fun as _ has => ?_).congr (iff_of_eq (and_true _))
    exact ok (.cons ha has)

/-- Adding up entries, each of which is accepted if it goes with those before it. -/
lemma foldlM {ι σ : Type} {f : σ → ι → Except Refusal σ} {s : List ι → σ}
    {R : ι → ι → Prop} {C : ι → Prop}
    (h : ∀ l i, Judges (f (s l) i) ((∀ x ∈ l, R x i) ∧ C i) (· = s (l ++ [i])))
    (done l : List ι) :
    Judges (l.foldlM f (s done)) ((∀ i ∈ l, ∀ x ∈ done, R x i) ∧ l.Pairwise R ∧ ∀ i ∈ l, C i)
      (· = s (done ++ l)) := by
  induction l generalizing done with
  | nil => exact (Judges.ok (by simp)).congr (by simp)
  | cons i l ih =>
    rw [List.foldlM_cons]
    refine ((h done i).bind (Q := (∀ j ∈ l, ∀ x ∈ done ++ [i], R x j) ∧ l.Pairwise R ∧
      ∀ j ∈ l, C j) ?_).congr ?_
    · rintro _ - rfl
      simpa using ih (done ++ [i])
    · simp [List.pairwise_cons, or_imp, forall_and]
      tauto

end Judges

end BuildPlanner.Document
