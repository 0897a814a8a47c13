import BuildPlanner.Version
import Mathlib.Data.List.GetD
import Mathlib.Order.Compare
import Mathlib.Order.PiLex
import Mathlib.Tactic.Lemma

/-!
The order of versions, and what the empty version does to it.

Components are compared as if zeros went on behind them, and by the first that differs. That is a
linear order of what the components stand for (`padded`), so among versions that are not empty the
laws of a linear order hold. The empty version is at least every version, but nothing puts it above
the others when it comes second: there its components count as zeros.
-/

namespace BuildPlanner.Version

variable {as bs : List UInt32} {v w : Version}

/-- Components with zeros behind them, ordered by the first that differs. -/
def padded (cs : List UInt32) : Lex (ℕ → ℕ) := toLex fun i => (cs.getD i 0).toNat

/-! ### Components behind the first -/

lemma getD_tail (cs : List UInt32) (i : ℕ) : cs.tail.getD i 0 = cs.getD (i + 1) 0 := by
  cases cs <;> rfl

lemma padded_eq_iff_forall : padded as = padded bs ↔ ∀ i, as.getD i 0 = bs.getD i 0 := by
  rw [← ofLex_inj, funext_iff]
  exact forall_congr' fun i => UInt32.toNat_inj

lemma padded_lt_iff_exists : padded as < padded bs ↔
    ∃ i, (∀ j < i, as.getD j 0 = bs.getD j 0) ∧ as.getD i 0 < bs.getD i 0 := by
  change (∃ i, (∀ j < i, (as.getD j 0).toNat = (bs.getD j 0).toNat) ∧ _) ↔ _
  simp only [UInt32.toNat_inj]
  rfl

lemma padded_eq_iff : padded as = padded bs ↔
    as.getD 0 0 = bs.getD 0 0 ∧ padded as.tail = padded bs.tail := by
  simp only [padded_eq_iff_forall, getD_tail]
  exact Nat.and_forall_add_one.symm

lemma padded_lt_iff : padded as < padded bs ↔ as.getD 0 0 < bs.getD 0 0 ∨
    as.getD 0 0 = bs.getD 0 0 ∧ padded as.tail < padded bs.tail := by
  simp only [padded_lt_iff_exists, getD_tail]
  rw [← Nat.or_exists_add_one]
  simp only [Nat.forall_lt_succ_left, Nat.not_lt_zero, and_assoc, exists_and_left]
  simp

/-! ### Comparison -/

lemma compareComponents_nil_left (bs : List UInt32) :
    compareComponents [] bs = if bs.all (· == 0) then .eq else .lt := by
  cases bs <;> rfl

lemma compareComponents_nil_right (as : List UInt32) :
    compareComponents as [] = if as.all (· == 0) then .eq else .gt := by
  cases as <;> rfl

lemma compareComponents_eq_then (as bs : List UInt32) : compareComponents as bs =
    (compare (as.getD 0 0) (bs.getD 0 0)).then (compareComponents as.tail bs.tail) := by
  rcases as with _ | ⟨a, as⟩
  · rcases bs with _ | ⟨b, bs⟩
    · rfl
    · -- The version that has ended goes on with zeros.
      by_cases hb : b = 0
      · have heq : compare 0 b = .eq := Std.compare_eq_iff_eq.2 hb.symm
        simp only [compareComponents_nil_left, List.all_cons, beq_iff_eq.2 hb, Bool.true_and,
          List.getD_nil, List.getD_cons_zero, heq, Ordering.eq_then, List.tail_nil, List.tail_cons]
      · have hlt : compare 0 b = .lt := Std.compare_eq_lt.2 (UInt32.pos_iff_ne_zero.2 hb)
        simp [compareComponents_nil_left, hb, hlt]
  · rcases bs with _ | ⟨b, bs⟩
    · by_cases ha : a = 0
      · have heq : compare a 0 = .eq := Std.compare_eq_iff_eq.2 ha
        simp only [compareComponents_nil_right, List.all_cons, beq_iff_eq.2 ha, Bool.true_and,
          List.getD_nil, List.getD_cons_zero, heq, Ordering.eq_then, List.tail_nil, List.tail_cons]
      · have hgt : compare a 0 = .gt := Std.compare_eq_gt.2 (UInt32.pos_iff_ne_zero.2 ha)
        simp [compareComponents_nil_right, ha, hgt]
    · rfl

/-- **Components are compared by what they stand for.** -/
theorem compares (as bs : List UInt32) :
    (compareComponents as bs).Compares (padded as) (padded bs) := by
  -- Two lists of different lengths end at different times, so the longer one is followed.
  generalize hn : max as.length bs.length = n
  induction n generalizing as bs with
  | zero =>
    obtain ⟨rfl, rfl⟩ : as = [] ∧ bs = [] := by simpa using hn
    rfl
  | succ n ih =>
    have htail := ih as.tail bs.tail (by simp only [List.length_tail]; omega)
    rw [compareComponents_eq_then]
    cases hfirst : compare (as.getD 0 0) (bs.getD 0 0) with
    | lt => exact padded_lt_iff.2 (.inl (Std.compare_eq_lt.1 hfirst))
    | gt => exact padded_lt_iff.2 (.inl (Std.compare_eq_gt.1 hfirst))
    | eq =>
      have heq := Std.compare_eq_iff_eq.1 hfirst
      rw [Ordering.then]
      cases hrest : compareComponents as.tail bs.tail with
      | lt =>
        rw [hrest] at htail
        exact padded_lt_iff.2 (.inr ⟨heq, htail⟩)
      | eq =>
        rw [hrest] at htail
        exact padded_eq_iff.2 ⟨heq, htail⟩
      | gt =>
        rw [hrest] at htail
        exact padded_lt_iff.2 (.inr ⟨heq.symm, htail⟩)

lemma atLeast_iff : v.atLeast w ↔
    v.isEmpty ∨ padded w.components ≤ padded v.components := by
  rw [atLeast, Bool.or_eq_true, bne_iff_ne, ne_eq, (compares _ _).eq_lt, not_lt]

lemma same_iff : v.same w ↔ padded v.components = padded w.components := by
  rw [same, beq_iff_eq, (compares _ _).eq_eq]

/-! ### Zeros -/

/-- Zeros at the end do not count. -/
lemma padded_append_replicate (cs : List UInt32) (n : ℕ) :
    padded (cs ++ List.replicate n 0) = padded cs := by
  rw [padded_eq_iff_forall]
  intro i
  rcases lt_or_ge i cs.length with h | h
  · rw [List.getD_append _ _ _ _ h]
  · rw [List.getD_append_right _ _ _ _ h, List.getD_eq_default _ _ h,
      List.getD_eq_getElem?_getD, List.getElem?_getD_replicate_default_eq]

lemma padded_eq_nil_iff {cs : List UInt32} : padded cs = padded [] ↔ ∀ c ∈ cs, c = 0 := by
  rw [← (compares cs []).eq_eq, compareComponents_nil_right]
  split
  · next h => simpa using h
  · next h => simpa using h

lemma padded_nil_le (cs : List UInt32) : padded [] ≤ padded cs := by
  rw [← not_lt, ← (compares cs []).eq_lt, compareComponents_nil_right]
  split <;> simp

/-! ### The empty version -/

lemma components_of_isEmpty (h : v.isEmpty) : v.components = [] := List.isEmpty_iff.1 h

lemma atLeast_of_nonempty (h : ¬ v.isEmpty) :
    v.atLeast w ↔ padded w.components ≤ padded v.components := by
  rw [atLeast_iff, or_iff_right h]

lemma empty_atLeast (h : v.isEmpty) (w : Version) : v.atLeast w := atLeast_iff.2 (.inl h)

/-- The empty version is not above the others, for these are at least it, too. -/
lemma atLeast_empty (h : w.isEmpty) (v : Version) : v.atLeast w := by
  rw [atLeast_iff, components_of_isEmpty h]
  exact .inr (padded_nil_le _)

lemma atLeast_both_iff : v.atLeast w ∧ w.atLeast v ↔
    v.isEmpty ≠ w.isEmpty ∨ padded v.components = padded w.components := by
  by_cases hv : v.isEmpty <;> by_cases hw : w.isEmpty
  · rw [components_of_isEmpty hv, components_of_isEmpty hw]
    exact iff_of_true ⟨empty_atLeast hv w, empty_atLeast hw v⟩ (.inr rfl)
  · exact iff_of_true ⟨empty_atLeast hv w, atLeast_empty hv w⟩ (.inl (by simp [hv, hw]))
  · exact iff_of_true ⟨atLeast_empty hw v, empty_atLeast hw v⟩ (.inl (by simp [hv, hw]))
  · rw [atLeast_of_nonempty hv, atLeast_of_nonempty hw, and_comm, ← le_antisymm_iff]
    simp [hv, hw]

lemma atLeast_trans_iff {u : Version} : (u.atLeast v → v.atLeast w → u.atLeast w) ↔
    ¬ (v.isEmpty ∧ ¬ u.isEmpty ∧ padded u.components < padded w.components) := by
  by_cases hu : u.isEmpty
  · exact iff_of_true (fun _ _ => empty_atLeast hu w) fun h => h.2.1 hu
  · by_cases hv : v.isEmpty
    · have hgoal : (u.atLeast v → v.atLeast w → u.atLeast w) ↔ u.atLeast w :=
        ⟨fun h => h (atLeast_empty hv u) (empty_atLeast hv w), fun h _ _ => h⟩
      rw [hgoal, atLeast_of_nonempty hu, ← not_lt]
      exact not_congr ⟨fun h => ⟨hv, hu, h⟩, fun h => h.2.2⟩
    · refine iff_of_true (fun huv hvw => ?_) fun h => hv h.1
      rw [atLeast_of_nonempty hu] at huv ⊢
      rw [atLeast_of_nonempty hv] at hvw
      exact hvw.trans huv

/-- **The comparison is linear among versions that are not empty, and these are the exceptions.**
Every version is at least itself, of two versions one is at least the other, and one is before the
other exactly if it is not at least it. What is at least `b` is at least all that `b` is at least,
unless `b` is empty, `a` is not, and the components of `a` are below those of `c`. Two versions are
each at least the other exactly if they are the same, unless only one of them is empty and the other
has a component that is not zero. Zeros at the end make no difference. The empty version is at least
every other one, but no other one is before it, and it is the same as those that have only zeros. -/
theorem comparison_linear_iff (a b c : Version) :
    a.atLeast a ∧ (a.atLeast b ∨ b.atLeast a) ∧ (a.before b ↔ ¬ a.atLeast b) ∧
    ((a.atLeast b → b.atLeast c → a.atLeast c) ↔
      ¬ (b.isEmpty ∧ ¬ a.isEmpty ∧ padded a.components < padded c.components)) ∧
    ((a.atLeast b ∧ b.atLeast a ↔ a.same b) ↔
      ¬ (a.isEmpty ≠ b.isEmpty ∧ padded a.components ≠ padded b.components)) ∧
    (∀ cs m n, (⟨cs ++ List.replicate m 0⟩ : Version).same ⟨cs ++ List.replicate n 0⟩) ∧
    (a.isEmpty → ¬ b.isEmpty →
      a.atLeast b ∧ ¬ b.before a ∧ (a.same b ↔ ∀ x ∈ b.components, x = 0)) := by
  have hbefore (v w : Version) : v.before w ↔ ¬ v.atLeast w := by simp [before]
  refine ⟨atLeast_iff.2 (.inr le_rfl), ?_, hbefore a b, atLeast_trans_iff, ?_, fun cs m n => ?_,
    fun ha _ => ⟨empty_atLeast ha b, fun h => (hbefore b a).1 h (atLeast_empty ha b), ?_⟩⟩
  · exact (le_total (padded b.components) (padded a.components)).imp
      (fun h => atLeast_iff.2 (.inr h)) fun h => atLeast_iff.2 (.inr h)
  · rw [atLeast_both_iff, same_iff]
    tauto
  · rw [same_iff, padded_append_replicate, padded_append_replicate]
  · rw [same_iff, components_of_isEmpty ha, eq_comm, padded_eq_nil_iff]

/-- The empty version is not above the others: 5 is at least it and it is at least 6, but 5 is
before 6. It is the same as 0. -/
theorem empty_not_above :
    (⟨[5]⟩ : Version).atLeast ⟨[]⟩ ∧ (⟨[]⟩ : Version).atLeast ⟨[6]⟩ ∧
      ¬ (⟨[5]⟩ : Version).atLeast ⟨[6]⟩ ∧ (⟨[]⟩ : Version).atLeast ⟨[5]⟩ ∧
      ¬ (⟨[5]⟩ : Version).same ⟨[]⟩ ∧ ¬ (⟨[5]⟩ : Version).before ⟨[]⟩ ∧
      (⟨[]⟩ : Version).same ⟨[0]⟩ := by
  decide

end BuildPlanner.Version
