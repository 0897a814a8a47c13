import BuildPlanner.Proofs.Fault
import BuildPlanner.Tally
import Mathlib.Algebra.BigOperators.Group.List.Basic
import Mathlib.Data.Nat.Cast.Basic

/-!
Counting along lists.

Items that are counted while something is done for each of them are done as without the counts
(`run_countEach`), and every count grows by what the items count for (`Tally.foldl_add`).
-/

namespace BuildPlanner

variable {α β : Type}

theorem run_countEach (count : α → Tally) (f : α → Except Fault β) (l : List α) (t : Tally) :
    (countEach count f l).run t =
      (l.mapM f).map fun bs => (bs, l.foldl (fun t a => t + count a) t) := by
  induction l generalizing t with
  | nil => rfl
  | cons a l ih =>
    have hfirst : (do let b ← f a; modify (· + count a); return b : Counting β).run t =
        (f a).map fun b => (b, t + count a) := by
      cases f a <;> rfl
    rw [countEach, List.mapM_cons, StateT.run_bind, hfirst, List.mapM_cons]
    cases f a with
    | error e => rfl
    | ok b =>
      have hrest := ih (t + count a)
      change (countEach count f l).run (t + count a) >>= _ = _
      rw [hrest]
      cases l.mapM f <;> rfl

lemma run_countEach_eq_ok_iff {count : α → Tally} {f : α → Except Fault β} {l : List α}
    {t t' : Tally} {bs : List β} : (countEach count f l).run t = .ok (bs, t') ↔
      l.mapM f = .ok bs ∧ l.foldl (fun t a => t + count a) t = t' := by
  simp [run_countEach, Fault.map_eq_ok]

lemma run_countEach_ok (count : α → Tally) (f : α → β) (l : List α) (t : Tally) :
    (countEach count (fun a => .ok (f a)) l).run t =
      .ok (l.map f, l.foldl (fun t a => t + count a) t) :=
  run_countEach_eq_ok_iff.2 ⟨Fault.mapM_eq_ok_of_forall fun _ _ => rfl, rfl⟩

namespace Tally

lemma add_def (s t : Tally) : s + t = {
    modulesResolved := s.modulesResolved + t.modulesResolved
    aliasesApplied := s.aliasesApplied + t.aliasesApplied
    renamedModules := s.renamedModules + t.renamedModules
    moduleBuilds := s.moduleBuilds + t.moduleBuilds
    hostDuplicates := s.hostDuplicates + t.hostDuplicates
    productBuilds := s.productBuilds + t.productBuilds } := rfl

lemma foldl_add (count : α → Tally) (l : List α) (t : Tally) :
    l.foldl (fun t a => t + count a) t = t + {
      modulesResolved := (l.map fun a => (count a).modulesResolved).sum
      aliasesApplied := (l.map fun a => (count a).aliasesApplied).sum
      renamedModules := (l.map fun a => (count a).renamedModules).sum
      moduleBuilds := (l.map fun a => (count a).moduleBuilds).sum
      hostDuplicates := (l.map fun a => (count a).hostDuplicates).sum
      productBuilds := (l.map fun a => (count a).productBuilds).sum } := by
  induction l generalizing t with
  | nil => rfl
  | cons a l ih =>
    rw [List.foldl_cons, ih]
    simp [add_def, Nat.add_assoc]

lemma sum_toNat (p : α → Bool) (l : List α) : (l.map fun a => (p a).toNat).sum = l.countP p := by
  induction l with
  | nil => rfl
  | cons a l ih =>
    rw [List.map_cons, List.sum_cons, List.countP_cons, ih, Nat.add_comm]
    cases p a <;> rfl

end Tally

end BuildPlanner
