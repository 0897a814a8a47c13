import BuildPlanner.Proofs.Build.Visits
import BuildPlanner.Proofs.Graph.Lookup

/-!
Tours through graphs that a plan was not made of.

The graph of a plan can have grown, so a tour can meet a build that was not planned, or a cycle. It
still ends: its path has builds of the plan only and none of them twice, so the fuel never runs out.
What a tour has left behind is closed under child builds and on no cycle (`Tour.IsClear`), for a
build is left behind after all its children are, and none of these leads back to it. So a tour that
goes through to the end has come to no cycle, and one that is stopped by a cycle has one at hand.
-/

namespace BuildPlanner.Build

open BuildPlanner.Graph
open Relation (ReflTransGen TransGen)

variable {g : Graph} {plan : Plan}

/-! ### Definitions -/

namespace Tour

def enter (t : Tour) (path : List ModuleKey) (k : ModuleKey) : Tour :=
  { t.arrive path k with expanded := k :: t.expanded }

/-- A tour that goes on to the builds `ks` in turn along a path ends in `r`. -/
inductive Ends (g : Graph) (plan : Plan) : (path : List ModuleKey) → Tour → List ModuleKey →
    Except Fault Tour → Prop
  | nil {path : List ModuleKey} {t : Tour} : Ends g plan path t [] (.ok t)
  | unplanned {path : List ModuleKey} {t : Tour} {k : ModuleKey} {ks : List ModuleKey}
      (hk : plan.module? k = none) : Ends g plan path t (k :: ks) (.error .unplannedVisit)
  | cycle {path : List ModuleKey} {t : Tour} {k : ModuleKey} {ks : List ModuleKey} {name : String}
      (hk : (plan.module? k).isSome = true) (hpath : k ∈ path)
      (hname : g.qualifiedModule k.module = .ok name) :
    Ends g plan path t (k :: ks) (.error (.dependencyCycle name))
  | again {path : List ModuleKey} {t : Tour} {k : ModuleKey} {ks : List ModuleKey}
      {r : Except Fault Tour} (hk : (plan.module? k).isSome = true) (hpath : k ∉ path)
      (hold : k ∈ t.expanded) (hrest : Ends g plan path (t.arrive path k) ks r) :
    Ends g plan path t (k :: ks) r
  | stopped {path : List ModuleKey} {t : Tour} {k : ModuleKey} {ks : List ModuleKey} {f : Fault}
      (hk : (plan.module? k).isSome = true) (hpath : k ∉ path) (hnew : k ∉ t.expanded)
      (hinner : Ends g plan (k :: path) (t.enter path k) (g.childKeys k) (.error f)) :
    Ends g plan path t (k :: ks) (.error f)
  | first {path : List ModuleKey} {t t' : Tour} {k : ModuleKey} {ks : List ModuleKey}
      {r : Except Fault Tour} (hk : (plan.module? k).isSome = true) (hpath : k ∉ path)
      (hnew : k ∉ t.expanded)
      (hinner : Ends g plan (k :: path) (t.enter path k) (g.childKeys k) (.ok t'))
      (hrest : Ends g plan path t' ks r) : Ends g plan path t (k :: ks) r

/-- A tour has left a build behind. -/
def Left (t : Tour) (path : List ModuleKey) (k : ModuleKey) : Prop := k ∈ t.expanded ∧ k ∉ path

/-- What a tour has left behind leads to nothing else, and not back to itself. -/
structure IsClear (g : Graph) (path : List ModuleKey) (t : Tour) : Prop where
  closed : ∀ k, t.Left path k → ∀ l ∈ g.childKeys k, t.Left path l
  acyclic : ∀ k, t.Left path k → ¬ TransGen (fun k l => l ∈ g.childKeys k) k k

end Tour

/-! ### Ends of tours -/

section Tours

variable {path : List ModuleKey} {t t' : Tour} {k : ModuleKey} {ks : List ModuleKey}
  {r s : Except Fault Tour}

lemma Tour.Ends.eq (h : Tour.Ends g plan path t ks r) (h' : Tour.Ends g plan path t ks s) :
    r = s := by
  induction h generalizing s with
  | nil =>
    cases h'
    rfl
  -- The guards tell the other ends of a list apart.
  | unplanned hk => cases h' <;> simp_all
  | cycle hk hpath hname => cases h' <;> simp_all
  | again hk hpath hold _ ih =>
    cases h' with
    | again _ _ _ hrest => exact ih hrest
    | _ => simp_all
  | stopped hk hpath hnew _ ih =>
    cases h' with
    | stopped _ _ _ hinner => exact ih hinner
    | first _ _ _ hinner _ => cases ih hinner
    | _ => simp_all
  | first hk hpath hnew _ _ ihinner ih =>
    cases h' with
    | stopped _ _ _ hinner => cases ihinner hinner
    | first _ _ _ hinner hrest =>
      obtain rfl := Except.ok.inj (ihinner hinner)
      exact ih hrest
    | _ => simp_all

/-- A first arrival ends as the walk behind it does, or as what comes after that. -/
lemma Tour.Ends.inward {next : Tour → Except Fault Tour} (hk : (plan.module? k).isSome = true)
    (hpath : k ∉ path) (hnew : k ∉ t.expanded)
    (hinner : Tour.Ends g plan (k :: path) (t.enter path k) (g.childKeys k) r)
    (hnext : ∀ t', r = .ok t' → Tour.Ends g plan path t' ks (next t')) :
    Tour.Ends g plan path t (k :: ks) (r >>= next) := by
  cases r with
  | error f => exact .stopped hk hpath hnew hinner
  | ok t' => exact .first hk hpath hnew hinner (hnext t' rfl)

lemma Tour.left_enter (hnew : k ∉ t.expanded) {l : ModuleKey} :
    (t.enter path k).Left (k :: path) l ↔ t.Left path l := by
  simp only [Left, enter, List.mem_cons, not_or]
  refine ⟨?_, ?_⟩
  · rintro ⟨hl, hne, hpath⟩
    exact ⟨hl.resolve_left hne, hpath⟩
  · rintro ⟨hl, hpath⟩
    exact ⟨.inr hl, ne_of_mem_of_not_mem hl hnew, hpath⟩

namespace Tour.IsClear

lemma reach (h : t.IsClear g path) (hk : t.Left path k) {l : ModuleKey}
    (hl : ReflTransGen (fun k l => l ∈ g.childKeys k) k l) : t.Left path l := by
  induction hl with
  | refl => exact hk
  | tail _ hchild ih => exact h.closed _ ih _ hchild

lemma enter (h : t.IsClear g path) (hnew : k ∉ t.expanded) :
    (t.enter path k).IsClear g (k :: path) := by
  constructor <;> simp only [left_enter hnew]
  · exact h.closed
  · exact h.acyclic

lemma leave (h : t.IsClear g (k :: path)) (hchildren : ∀ l ∈ g.childKeys k, t.Left (k :: path) l) :
    t.IsClear g path := by
  have hout {l : ModuleKey} (hl : t.Left (k :: path) l) : t.Left path l :=
    ⟨hl.1, fun hmem => hl.2 (List.mem_cons_of_mem k hmem)⟩
  have hin {l : ModuleKey} (hl : t.Left path l) (hne : l ≠ k) : t.Left (k :: path) l :=
    ⟨hl.1, by simp [hne, hl.2]⟩
  refine ⟨fun l hl x hx => ?_, fun l hl hloop => ?_⟩
  · by_cases hlk : l = k
    · exact hout (hchildren x (hlk ▸ hx))
    · exact hout (h.closed l (hin hl hlk) x hx)
  · by_cases hlk : l = k
    · -- A way back to the build would start at a child that was left behind before.
      subst hlk
      obtain ⟨x, hx, hback⟩ := TransGen.head'_iff.1 hloop
      exact (h.reach (hchildren x hx) hback).2 List.mem_cons_self
    · exact h.acyclic l (hin hl hlk) hloop

end Tour.IsClear

/-- **A tour that goes through leaves what it comes to behind.** -/
lemma Tour.Ends.isClear (h : Tour.Ends g plan path t ks (.ok t')) (hclear : t.IsClear g path) :
    t'.IsClear g path ∧ t.expanded ⊆ t'.expanded ∧ ∀ k ∈ ks, t'.Left path k := by
  generalize hr : Except.ok t' = r at h
  induction h generalizing t' with
  | nil =>
    obtain rfl := Except.ok.inj hr
    exact ⟨hclear, List.Subset.refl _, by simp⟩
  | unplanned | cycle | stopped => cases hr
  | again _ hpath hold _ ih =>
    obtain ⟨hclear', hgrown, hleft⟩ := ih ⟨hclear.closed, hclear.acyclic⟩ hr
    exact ⟨hclear', hgrown, List.forall_mem_cons.2 ⟨⟨hgrown hold, hpath⟩, hleft⟩⟩
  | first _ hpath hnew _ _ ihinner ih =>
    obtain ⟨hinner, hentered, hchildren⟩ := ihinner (hclear.enter hnew) rfl
    obtain ⟨hclear', hgrown, hleft⟩ := ih (hinner.leave hchildren) hr
    refine ⟨hclear', ?_, List.forall_mem_cons.2 ⟨⟨?_, hpath⟩, hleft⟩⟩
    · exact fun l hl => hgrown (hentered (List.mem_cons_of_mem _ hl))
    · exact hgrown (hentered List.mem_cons_self)

/-- **What stops a tour is there.** It is a build that was not planned, or one that leads back to
itself, unless that is on the path that the tour came along. -/
lemma Tour.Ends.exists_cause {f : Fault} (h : Tour.Ends g plan path t ks (.error f)) :
    ∃ k ∈ ks, ∃ l, ReflTransGen (fun k l => l ∈ g.childKeys k) k l ∧
      (f = .unplannedVisit ∧ plan.module? l = none ∨
        (l ∈ path ∨ TransGen (fun k l => l ∈ g.childKeys k) l l) ∧
          ∃ name, g.qualifiedModule l.module = .ok name ∧ f = .dependencyCycle name) := by
  generalize hr : Except.error f = r at h
  induction h with
  | nil => cases hr
  | unplanned hk => exact ⟨_, List.mem_cons_self, _, .refl, .inl ⟨Except.error.inj hr, hk⟩⟩
  | cycle _ hpath hname =>
    exact ⟨_, List.mem_cons_self, _, .refl, .inr ⟨.inl hpath, _, hname, Except.error.inj hr⟩⟩
  | again _ _ _ _ ih | first _ _ _ _ _ _ ih =>
    obtain ⟨k, hk, hcause⟩ := ih hr
    exact ⟨k, List.mem_cons_of_mem _ hk, hcause⟩
  | @stopped path t k ks f' _ _ _ _ ih =>
    obtain ⟨x, hx, l, hxl, hcause⟩ := ih hr
    have hkl : TransGen (fun k l => l ∈ g.childKeys k) k l := .head' hx hxl
    refine ⟨k, List.mem_cons_self, l, hkl.to_reflTransGen, hcause.imp_right (And.imp_left ?_)⟩
    -- A build of the longer path is `k` itself, which it leads back to, or one of the old path.
    rintro (hl | hloop)
    · rcases List.mem_cons.1 hl with rfl | hl
      · exact .inr hkl
      · exact .inl hl
    · exact .inr hloop

/-! ### Fuel -/

lemma Plan.length_le {ks : List ModuleKey} (hnodup : ks.Nodup)
    (hks : ∀ k ∈ ks, (plan.module? k).isSome = true) : ks.length ≤ plan.modules.length := by
  rw [← List.length_map PlannedModule.key]
  exact (hnodup.subperm fun k hk => isSome_module?_iff.1 (hks k hk)).length_le

lemma tour_of_unplanned {fuel : ℕ} (hk : plan.module? k = none) :
    plan.tour g fuel path t k = .error .unplannedVisit := by
  unfold Plan.tour
  simp [hk]
  rfl

lemma tour_of_mem_path {fuel : ℕ} (hk : (plan.module? k).isSome = true) (hpath : k ∈ path)
    {name : String} (hname : g.qualifiedModule k.module = .ok name) :
    plan.tour g fuel path t k = .error (.dependencyCycle name) := by
  unfold Plan.tour
  simp [Option.isNone_iff_eq_none, Option.isSome_iff_ne_none.1 hk, hpath, hname]
  rfl

/-- **Fuel for what is left of the longest path is enough.** The path of a tour is in the plan and
has no build twice, whatever cycles the graph has. -/
lemma tour_ends (hg : g.IsClosed) (hrange : plan.InRange g) {fuel : ℕ} (hnodup : path.Nodup)
    (hpath : ∀ k ∈ path, (plan.module? k).isSome = true)
    (hfuel : plan.modules.length ≤ fuel + path.length) :
    Tour.Ends g plan path t ks (ks.foldlM (plan.tour g fuel path) t) := by
  induction fuel using Nat.strongRecOn generalizing path t ks with
  | ind fuel ih =>
    induction ks generalizing t with
    | nil => exact .nil
    | cons k ks ihks =>
      rw [List.foldlM_cons]
      by_cases hk : (plan.module? k).isSome = true
      · by_cases hmem : k ∈ path
        · have hname := hg.qualifiedModule_eq (hrange k hk)
          -- Back on the path: the tour stops at the cycle.
          rw [tour_of_mem_path hk hmem hname]
          exact .cycle hk hmem hname
        by_cases hold : k ∈ t.expanded
        · -- Expanded before: the tour goes on with the others.
          rw [tour_of_expanded hk (hrange k hk) hmem hold]
          exact .again hk hmem hold ihks
        -- A first arrival makes the path longer, so there is fuel left for it.
        have hnodup' : (k :: path).Nodup := List.nodup_cons.2 ⟨hmem, hnodup⟩
        have hpath' : ∀ l ∈ k :: path, (plan.module? l).isSome = true :=
          List.forall_mem_cons.2 ⟨hk, hpath⟩
        have hlength := Plan.length_le hnodup' hpath'
        rw [List.length_cons] at hlength
        obtain ⟨n, rfl⟩ : ∃ n, fuel = n + 1 := Nat.exists_eq_add_one.2 (by omega)
        have hinner : Tour.Ends g plan (k :: path) (t.enter path k) (g.childKeys k)
            ((g.childKeys k).foldlM (plan.tour g n (k :: path)) (t.enter path k)) :=
          ih n (Nat.lt_succ_self n) hnodup' hpath' (by rw [List.length_cons]; omega)
        rw [tour_of_new hg hk (hrange k hk) hmem hold]
        exact .inward hk hmem hold hinner fun _ _ => ihks
      · rw [Option.not_isSome_iff_eq_none] at hk
        rw [tour_of_unplanned hk]
        exact .unplanned hk

end Tours

lemma exists_visits_ends (hg : g.IsClosed) (hrange : plan.InRange g) :
    ∃ r, Tour.Ends g plan [] {} plan.roots r ∧ plan.visits g = r.map (·.visits) ∧
      match r with
      | .ok _ => ∀ k ∈ plan.roots, ∀ l, ReflTransGen (fun k l => l ∈ g.childKeys k) k l →
          ¬ TransGen (fun k l => l ∈ g.childKeys k) l l
      | .error f => ∃ k ∈ plan.roots, ∃ l, ReflTransGen (fun k l => l ∈ g.childKeys k) k l ∧
          (f = .unplannedVisit ∧ plan.module? l = none ∨
            TransGen (fun k l => l ∈ g.childKeys k) l l ∧
              ∃ name, g.qualifiedModule l.module = .ok name ∧ f = .dependencyCycle name) := by
  have hends : Tour.Ends g plan [] {} plan.roots
      (plan.roots.foldlM (plan.tour g plan.modules.length []) {}) :=
    tour_ends hg hrange List.nodup_nil (by simp) (by simp)
  refine ⟨_, hends, ?_⟩
  unfold Plan.visits
  cases hr : plan.roots.foldlM (plan.tour g plan.modules.length []) {} with
  | error f =>
    rw [hr] at hends
    refine ⟨rfl, ?_⟩
    simpa using hends.exists_cause
  | ok t =>
    rw [hr] at hends
    have hempty : Tour.IsClear g [] {} := ⟨by simp [Tour.Left], by simp [Tour.Left]⟩
    obtain ⟨hclear, -, hleft⟩ := hends.isClear hempty
    exact ⟨rfl, fun k hk l hl => hclear.acyclic l (hclear.reach (hleft k hk) hl)⟩

end BuildPlanner.Build
