import BuildPlanner.Alias.Walk
import BuildPlanner.Proofs.Graph.Leads

/-!
What a walk finds.

As long as it meets no cycle, a walk settles dependencies in an order in which everything behind
a dependency comes before it, each of them once, and a module is finished when all of its
dependencies are settled. A module all of whose dependencies are settled in such an order has no
cycle behind it, so a walk that ends without a cycle has shown that there is none. The cycle that
a walk stops at is one: the path leads along dependencies, and it is closed. What was settled until
then stays in order (`ofGraph_valid`).
-/

namespace BuildPlanner.Alias

open Relation (ReflTransGen TransGen)

variable {g : Graph}

/-! ### Orders of dependencies -/

/-- All dependencies of a module are among the given ones. -/
def Complete (g : Graph) (es : List Edge) (m : ModuleId) : Prop :=
  ∀ i < (g.moduleAt m).dependencies.length, (⟨m, i⟩ : Edge) ∈ es

/-- Different dependencies, in an order in which everything behind one comes before it. -/
inductive Ordered (g : Graph) : List Edge → Prop
  | nil : Ordered g []
  | snoc {es : List Edge} {e : Edge} {d : Dependency} (hes : Ordered g es) (hnew : e ∉ es)
      (hd : (g.moduleAt e.consumer).dependencies[e.order]? = some d)
      (hbehind : ∀ n ∈ g.targets d, Complete g es n) : Ordered g (es ++ [e])

lemma Complete.append {es : List Edge} {m : ModuleId} (h : Complete g es m) (fs : List Edge) :
    Complete g (es ++ fs) m := fun i hi => List.mem_append_left _ (h i hi)

lemma Complete.mem {es : List Edge} {m : ModuleId} (h : Complete g es m) {i : Nat}
    {d : Dependency} (hd : (g.moduleAt m).dependencies[i]? = some d) : (⟨m, i⟩ : Edge) ∈ es :=
  h i (List.getElem?_eq_some_iff.1 hd).1

lemma exists_settled_concat {es : List Edge} {e : Edge} {d : Dependency}
    (hd : (g.moduleAt e.consumer).dependencies[e.order]? = some d) {m : ModuleId}
    {P : ModuleId → Nat → Dependency → Prop} :
    (∃ i d', (⟨m, i⟩ : Edge) ∈ es ++ [e] ∧ (g.moduleAt m).dependencies[i]? = some d' ∧
        P m i d') ↔
      (∃ i d', (⟨m, i⟩ : Edge) ∈ es ∧ (g.moduleAt m).dependencies[i]? = some d' ∧ P m i d') ∨
        e.consumer = m ∧ P e.consumer e.order d := by
  refine ⟨?_, ?_⟩
  · rintro ⟨i, d', hi, hd', h⟩
    rcases List.mem_append.1 hi with hi | hi
    · exact .inl ⟨i, d', hi, hd', h⟩
    · obtain rfl := List.mem_singleton.1 hi
      obtain rfl : d' = d := Option.some.inj (hd'.symm.trans hd)
      exact .inr ⟨rfl, h⟩
  · rintro (⟨i, d', hi, hd', h⟩ | ⟨rfl, h⟩)
    · exact ⟨i, d', by simp [hi], hd', h⟩
    · exact ⟨e.order, d, by simp, hd, h⟩

namespace Ordered

lemma behind {es : List Edge} (h : Ordered g es) {e : Edge} (he : e ∈ es) {d : Dependency}
    (hd : (g.moduleAt e.consumer).dependencies[e.order]? = some d) :
    ∀ n ∈ g.targets d, Complete g es n := by
  induction h with
  | nil => simp at he
  | @snoc es e' d' _ _ hd' hbehind ih =>
    intro n hn
    rcases List.mem_append.1 he with he | he
    · exact (ih he n hn).append _
    · obtain rfl := List.mem_singleton.1 he
      obtain rfl : d' = d := Option.some.inj (hd'.symm.trans hd)
      exact (hbehind n hn).append _

/-- Everything behind the last dependency of an order comes before it. -/
lemma behind_last {es : List Edge} {e : Edge} (h : Ordered g (es ++ [e])) {d : Dependency}
    (hd : (g.moduleAt e.consumer).dependencies[e.order]? = some d) :
    ∀ n ∈ g.targets d, Complete g es n := by
  generalize hfs : es ++ [e] = fs at h
  cases h with
  | nil => simp at hfs
  | @snoc es' e' d' _ _ hd' hbehind =>
    obtain ⟨rfl, he⟩ := List.append_inj' hfs rfl
    obtain rfl := List.singleton_inj.1 he
    obtain rfl : d' = d := Option.some.inj (hd'.symm.trans hd)
    exact hbehind

lemma of_prefix {es fs : List Edge} (h : Ordered g fs) (hes : es <+: fs) : Ordered g es := by
  induction h with
  | nil => exact List.prefix_nil.1 hes ▸ .nil
  | @snoc fs e d hfs hnew hd hbehind ih =>
    rcases List.prefix_concat_iff.1 hes with rfl | hes
    · exact .snoc hfs hnew hd hbehind
    · exact ih hes

lemma complete_of_leads {es : List Edge} (h : Ordered g es) {m n : ModuleId}
    (hm : Complete g es m) (hn : g.Leads m n) : Complete g es n := by
  obtain ⟨d, hd, hn⟩ := Graph.leads_iff.1 hn
  obtain ⟨i, hi⟩ := List.mem_iff_getElem?.1 hd
  exact h.behind (hm.mem hi) hi n hn

lemma acc {es : List Edge} (h : Ordered g es) {m : ModuleId} (hm : Complete g es m) :
    Acc (fun a b => g.Leads b a) m := by
  induction h generalizing m with
  | nil =>
    refine ⟨_, fun n hn => ?_⟩
    obtain ⟨d, hd, -⟩ := Graph.leads_iff.1 hn
    obtain ⟨i, hi⟩ := List.mem_iff_getElem?.1 hd
    exact absurd (hm.mem hi) List.not_mem_nil
  | @snoc es e d hes _ hd hbehind ih =>
    refine ⟨_, fun n hn => ih ?_⟩
    obtain ⟨d', hd', hn⟩ := Graph.leads_iff.1 hn
    obtain ⟨i, hi⟩ := List.mem_iff_getElem?.1 hd'
    rcases List.mem_append.1 (hm.mem hi) with he | he
    · exact hes.behind he hi n hn
    · obtain rfl := List.mem_singleton.1 he
      obtain rfl : d = d' := Option.some.inj (hd.symm.trans hi)
      exact hbehind n hn

end Ordered

lemma not_transGen_self {m : ModuleId} (h : Acc (fun a b => g.Leads b a) m) :
    ¬ TransGen g.Leads m m := by
  induction h with
  | intro m _ ih =>
    intro hm
    obtain ⟨n, hn, hnm⟩ := TransGen.head'_iff.1 hm
    exact ih n hn (.tail' hnm hn)

namespace Walk

/-! ### Valid walks -/

/-- What holds of a walk that has met no cycle, while it is at the modules of a path. -/
structure Valid (g : Graph) (path : List ModuleId) (w : Walk) : Prop where
  running : w.cycle = none
  ordered : Ordered g w.settled
  complete : ∀ m ∈ w.finished, Complete g w.settled m
  reached : ∀ m ∈ w.finished, g.IsReached m
  owned : ∀ e ∈ w.settled, e.consumer ∈ w.finished ∨ e.consumer ∈ path
  pending : ∀ m ∈ path, m ∉ w.finished

lemma Valid.consumer_reached {w : Walk} (h : w.Valid g []) :
    ∀ e ∈ w.settled, g.IsReached e.consumer := fun e he =>
  h.reached _ ((h.owned e he).resolve_right List.not_mem_nil)

lemma Valid.running_eq {path : List ModuleId} {w : Walk} (h : w.Valid g path) :
    ({ w with cycle := none } : Walk) = w := by
  rw [← h.running]

/-- What a walk keeps while it goes on from a path: finished modules stay finished, and the
modules of the path have the same dependencies settled. -/
structure Grows (path : List ModuleId) (w w' : Walk) : Prop where
  finished : ∀ m ∈ w.finished, m ∈ w'.finished
  settled : ∀ e : Edge, e.consumer ∈ path → (e ∈ w'.settled ↔ e ∈ w.settled)

/-- A walk has met a cycle that is one. -/
def AtLoop (g : Graph) (w : Walk) : Prop := ∃ c, w.cycle = some c ∧ g.IsLoop c

/-- A walk has met a cycle that is one, and was valid until then. -/
structure Stopped (g : Graph) (w : Walk) : Prop where
  atLoop : w.AtLoop g
  before : ∃ path, ({ w with cycle := none } : Walk).Valid g path

lemma Grows.refl (path : List ModuleId) (w : Walk) : Grows path w w :=
  ⟨fun _ h => h, fun _ _ => .rfl⟩

lemma Grows.trans {path : List ModuleId} {w₁ w₂ w₃ : Walk} (h : Grows path w₁ w₂)
    (h' : Grows path w₂ w₃) : Grows path w₁ w₃ :=
  ⟨fun m hm => h'.finished m (h.finished m hm),
    fun e he => (h'.settled e he).trans (h.settled e he)⟩

lemma Grows.shorten {path : List ModuleId} {m : ModuleId} {w w' : Walk}
    (h : Grows (path ++ [m]) w w') : Grows path w w' :=
  ⟨h.finished, fun e he => h.settled e (by simp [he])⟩

lemma Valid.lengthen {path : List ModuleId} {w : Walk} (h : w.Valid g path) {m : ModuleId}
    (hm : m ∉ w.finished) : w.Valid g (path ++ [m]) where
  running := h.running
  ordered := h.ordered
  complete := h.complete
  reached := h.reached
  owned e he := (h.owned e he).imp_right (List.mem_append_left _)
  pending n hn := by
    rcases List.mem_append.1 hn with hn | hn
    · exact h.pending n hn
    · obtain rfl := List.mem_singleton.1 hn
      exact hm

/-! ### A cycle stops a walk -/

lemma not_running {w : Walk} (h : w.Stopped g) : w.cycle.isSome := by
  obtain ⟨c, hc, -⟩ := h.atLoop
  simp [hc]

lemma visit_of_isSome {fuel : Nat} {path : List ModuleId} {w : Walk} (h : w.cycle.isSome)
    (m : ModuleId) : visit g fuel path w m = w := by
  cases fuel <;> simp [visit, enter, h]

lemma foldl_visit_of_isSome {fuel : Nat} {path : List ModuleId} {w : Walk} (h : w.cycle.isSome)
    (ms : List ModuleId) : ms.foldl (visit g fuel path) w = w := by
  induction ms with
  | nil => rfl
  | cons m ms ih => rw [List.foldl_cons, visit_of_isSome h, ih]

lemma settle_of_isSome {w : Walk} (h : w.cycle.isSome) (e : Edge) : w.settle e = w := by
  simp [settle, h]

lemma finish_of_isSome {w : Walk} (h : w.cycle.isSome) (m : ModuleId) : w.finish m = w := by
  simp [finish, h]

/-! ### Visits -/

/-- What a visit comes to: a cycle, or a walk that goes on, with the given modules finished. -/
def Leaves (g : Graph) (path : List ModuleId) (w : Walk) (ms : List ModuleId) (w' : Walk) :
    Prop :=
  w'.Stopped g ∨ w'.Valid g path ∧ Grows path w w' ∧ ∀ m ∈ ms, m ∈ w'.finished

/-- The path leads on to a module that may be visited next. -/
def LeadsOn (g : Graph) (path : List ModuleId) (m : ModuleId) : Prop :=
  g.IsReached m ∧ (path ++ [m]).IsChain g.Leads

/-- The visits of a given fuel from a path come to what they should. -/
def Visits (g : Graph) (fuel : Nat) (path : List ModuleId) : Prop :=
  ∀ w m, w.Valid g path → LeadsOn g path m → Leaves g path w [m] (visit g fuel path w m)

lemma LeadsOn.next {path : List ModuleId} {m n : ModuleId} (h : LeadsOn g path m)
    (hn : g.Leads m n) : LeadsOn g (path ++ [m]) n := by
  refine ⟨h.1.step hn, h.2.append (.singleton n) ?_⟩
  simpa using hn

lemma isLoop_loop {path : List ModuleId} {m : ModuleId} (hpath : ∀ n ∈ path, g.IsReached n)
    (h : LeadsOn g path m) (hm : m ∈ path) : g.IsLoop (loop path m) := by
  obtain ⟨before, after, rfl, hbefore⟩ := List.eq_append_cons_of_mem hm
  have hloop : loop (before ++ m :: after) m = m :: (after ++ [m]) := by
    rw [loop, List.dropWhile_append_of_pos]
    · simp
    · rintro n hn
      simpa using ne_of_mem_of_not_mem hn hbefore
  rw [hloop]
  refine ⟨h.2.suffix ⟨before, by simp⟩, ?_, by simp, fun n hn => ?_⟩
  · rw [List.head?_cons, ← List.cons_append, List.getLast?_concat]
  · have hcases : n = m ∨ n ∈ after := by simpa [or_comm, or_assoc] using hn
    rcases hcases with rfl | hn
    · exact h.1
    · exact hpath n (by simp [hn])

lemma leaves_foldl {fuel : Nat} {path : List ModuleId} (hv : Visits g fuel path)
    {ms : List ModuleId} (hms : ∀ m ∈ ms, LeadsOn g path m) {w : Walk} (hw : w.Valid g path) :
    Leaves g path w ms (ms.foldl (visit g fuel path) w) := by
  induction ms generalizing w with
  | nil => exact .inr ⟨hw, .refl path w, by simp⟩
  | cons m ms ih =>
    rw [List.foldl_cons]
    rcases hv w m hw (hms m (by simp)) with hloop | ⟨hw₁, hg₁, hm⟩
    · -- The walk stops below `m`: the others are not visited.
      rw [foldl_visit_of_isSome (not_running hloop)]
      exact .inl hloop
    · rcases ih (fun n hn => hms n (by simp [hn])) hw₁ with hloop | ⟨hw₂, hg₂, hms₂⟩
      · -- The walk stops below one of the others.
        exact .inl hloop
      · -- All are visited, and what `m` has finished stays finished.
        refine .inr ⟨hw₂, hg₁.trans hg₂, fun n hn => ?_⟩
        rcases List.mem_cons.1 hn with rfl | hn
        · exact hg₂.finished n (hm n (by simp))
        · exact hms₂ n hn

lemma Valid.settle {path : List ModuleId} {m : ModuleId} {w : Walk} {i : Nat} {d : Dependency}
    (hw : w.Valid g (path ++ [m])) (hi : (⟨m, i⟩ : Edge) ∉ w.settled)
    (hd : (g.moduleAt m).dependencies[i]? = some d) (hn : ∀ n ∈ g.targets d, n ∈ w.finished) :
    (w.settle ⟨m, i⟩).Valid g (path ++ [m]) := by
  have hsettle : w.settle ⟨m, i⟩ = { w with settled := w.settled ++ [⟨m, i⟩] } := by
    simp [Walk.settle, hw.running]
  rw [hsettle]
  refine ⟨hw.running, .snoc hw.ordered hi hd fun n h => hw.complete n (hn n h),
    fun n h => (hw.complete n h).append _, hw.reached, fun e he => ?_, hw.pending⟩
  rcases List.mem_append.1 he with he | he
  · exact hw.owned e he
  · obtain rfl := List.mem_singleton.1 he
    exact .inr (by simp)

/-- What a visit does with one of the dependencies of `m`. -/
def pass (g : Graph) (fuel : Nat) (path : List ModuleId) (m : ModuleId) (w : Walk)
    (d : Dependency × Nat) : Walk :=
  ((g.targets d.1).foldl (visit g fuel (path ++ [m])) w).settle ⟨m, d.2⟩

lemma foldl_pass_of_isSome {fuel : Nat} {path : List ModuleId} {m : ModuleId} {w : Walk}
    (h : w.cycle.isSome) (ds : List (Dependency × Nat)) :
    ds.foldl (pass g fuel path m) w = w := by
  induction ds with
  | nil => rfl
  | cons d ds ih => rw [List.foldl_cons, pass, foldl_visit_of_isSome h, settle_of_isSome h, ih]

/-- Along the dependencies of `m`, those before position `i` are settled. -/
lemma leaves_pass {fuel : Nat} {path : List ModuleId} {m : ModuleId}
    (hv : Visits g fuel (path ++ [m])) (hm : LeadsOn g path m) (hnew : m ∉ path)
    (ds : List Dependency) :
    ∀ (i : Nat) (w : Walk), (g.moduleAt m).dependencies.drop i = ds →
      w.Valid g (path ++ [m]) → (∀ j, (⟨m, j⟩ : Edge) ∈ w.settled ↔ j < i) →
      ((ds.zipIdx i).foldl (pass g fuel path m) w).Stopped g ∨
        ((ds.zipIdx i).foldl (pass g fuel path m) w).Valid g (path ++ [m]) ∧
        Grows path w ((ds.zipIdx i).foldl (pass g fuel path m) w) ∧
        ∀ j < i + ds.length,
          (⟨m, j⟩ : Edge) ∈ ((ds.zipIdx i).foldl (pass g fuel path m) w).settled := by
  induction ds with
  | nil =>
    intro i w _ hw hi
    exact .inr ⟨hw, .refl path w, fun j hj => (hi j).2 (by simpa using hj)⟩
  | cons d ds ih =>
    intro i w hds hw hi
    have hd : (g.moduleAt m).dependencies[i]? = some d := by
      rw [← List.head?_drop, hds, List.head?_cons]
    have hrest : (g.moduleAt m).dependencies.drop (i + 1) = ds := by
      rw [← List.tail_drop, hds, List.tail_cons]
    rw [List.zipIdx_cons, List.foldl_cons]
    have htargets : ∀ n ∈ g.targets d, LeadsOn g (path ++ [m]) n := fun n hn =>
      hm.next (Graph.leads_of_getElem? hd hn)
    rcases leaves_foldl hv htargets hw with hloop | ⟨hw₁, hg₁, hn⟩
    · -- A target of `d` stops the walk: neither `d` nor what comes after it is settled.
      have hstop := not_running hloop
      rw [pass, settle_of_isSome hstop, foldl_pass_of_isSome hstop]
      exact .inl hloop
    · -- The targets are finished, and `d` is the next dependency that is settled.
      set w₁ := (g.targets d).foldl (visit g fuel (path ++ [m])) w with hw₁def
      have hi₁ : ∀ j, (⟨m, j⟩ : Edge) ∈ w₁.settled ↔ j < i := fun j =>
        (hg₁.settled _ (by simp)).trans (hi j)
      have hw₂ := hw₁.settle (fun h => lt_irrefl i ((hi₁ i).1 h)) hd hn
      have hpass : pass g fuel path m w (d, i) = w₁.settle ⟨m, i⟩ := rfl
      have hsettled : (w₁.settle ⟨m, i⟩).settled = w₁.settled ++ [⟨m, i⟩] := by
        simp [Walk.settle, hw₁.running]
      have hi₂ : ∀ j, (⟨m, j⟩ : Edge) ∈ (w₁.settle ⟨m, i⟩).settled ↔ j < i + 1 := by
        intro j
        rw [hsettled, List.mem_append, hi₁, List.mem_singleton, Nat.lt_succ_iff_lt_or_eq]
        simp
      have hg₂ : Grows path w (w₁.settle ⟨m, i⟩) := by
        refine hg₁.shorten.trans ⟨by simp [Walk.settle, hw₁.running], fun e he => ?_⟩
        have hne : e ≠ ⟨m, i⟩ := by
          rintro rfl
          exact hnew he
        rw [hsettled, List.mem_append, List.mem_singleton]
        simp [hne]
      rw [hpass]
      rcases ih (i + 1) _ hrest hw₂ hi₂ with hloop | ⟨hw₃, hg₃, hj⟩
      · exact .inl hloop
      · refine .inr ⟨hw₃, hg₂.trans hg₃, fun j hjlt => hj j ?_⟩
        simp only [List.length_cons] at hjlt
        omega

lemma visit_of_finished {fuel : Nat} {path : List ModuleId} {w : Walk} {m : ModuleId}
    (h : m ∈ w.finished) : visit g fuel path w m = w := by
  cases fuel <;> simp [visit, enter, h]

lemma visit_of_mem_path {fuel : Nat} {path : List ModuleId} {w : Walk} {m : ModuleId}
    (hw : w.cycle = none) (hm : m ∉ w.finished) (h : m ∈ path) :
    visit g fuel path w m = { w with cycle := some (loop path m) } := by
  cases fuel <;> simp [visit, enter, hw, hm, h]

lemma visit_of_new {fuel : Nat} {path : List ModuleId} {w : Walk} {m : ModuleId}
    (hw : w.cycle = none) (hm : m ∉ w.finished) (h : m ∉ path) :
    visit g (fuel + 1) path w m =
      ((g.moduleAt m).dependencies.zipIdx.foldl (pass g fuel path m) w).finish m := by
  simp only [visit, enter, hw, hm, h, Option.isSome_none, Bool.false_eq_true, or_self, if_false]
  rfl

lemma Valid.finish {path : List ModuleId} {m : ModuleId} {w : Walk}
    (hw : w.Valid g (path ++ [m])) (hm : Complete g w.settled m) (hr : g.IsReached m)
    (hnew : m ∉ path) : (w.finish m).Valid g path := by
  have hfinish : w.finish m = { w with finished := w.finished ++ [m] } := by
    simp [Walk.finish, hw.running]
  rw [hfinish]
  refine ⟨hw.running, hw.ordered, fun n hn => ?_, fun n hn => ?_, fun e he => ?_,
    fun n hn hfin => ?_⟩
  · -- A finished module has all its dependencies settled.
    rcases List.mem_append.1 hn with hn | hn
    · exact hw.complete n hn
    · obtain rfl := List.mem_singleton.1 hn
      exact hm
  · -- A finished module is reached.
    rcases List.mem_append.1 hn with hn | hn
    · exact hw.reached n hn
    · obtain rfl := List.mem_singleton.1 hn
      exact hr
  · -- What is settled belongs to a finished module or to the path, that `m` has left.
    rcases hw.owned e he with h | h
    · exact .inl (List.mem_append_left _ h)
    · rcases List.mem_append.1 h with h | h
      · exact .inr h
      · exact .inl (List.mem_append_right _ h)
  · -- No module of the path is finished.
    rcases List.mem_append.1 hfin with h | h
    · exact hw.pending n (List.mem_append_left _ hn) h
    · obtain rfl := List.mem_singleton.1 h
      exact hnew hn

/-- A module that is finished is left alone, and one of the path closes a cycle. -/
lemma leaves_of_seen {fuel : Nat} {path : List ModuleId} {w : Walk} {m : ModuleId}
    (hw : w.Valid g path) (hpath : ∀ n ∈ path, g.IsReached n) (hm : LeadsOn g path m)
    (hseen : m ∈ w.finished ∨ m ∈ path) : Leaves g path w [m] (visit g fuel path w m) := by
  by_cases hfin : m ∈ w.finished
  · -- Finished before: nothing happens.
    rw [visit_of_finished hfin]
    exact .inr ⟨hw, .refl path w, by simpa using hfin⟩
  · -- On the path: the walk stops at the loop.
    have hmem : m ∈ path := hseen.resolve_left hfin
    rw [visit_of_mem_path hw.running hfin hmem]
    exact .inl ⟨⟨_, rfl, isLoop_loop hpath hm hmem⟩, path, hw.running_eq.symm ▸ hw⟩

/-- **A visit finishes its module or meets a cycle.** The modules of the path are different and in
range, so the path is never longer than the fuel allows. -/
theorem visits (hg : g.IsClosed) (fuel : Nat) : ∀ path : List ModuleId, path.Nodup →
    (∀ m ∈ path, g.IsReached m) → g.modules.length ≤ fuel + path.length →
    Visits g fuel path := by
  induction fuel with
  | zero =>
    -- Without fuel the path holds every module in range, so `m` is on it.
    intro path hnodup hreached hfuel w m hw hm
    refine leaves_of_seen hw hreached hm (.inr ?_)
    by_contra hpath
    have hlong : (m :: path).length ≤ g.modules.length :=
      Graph.length_le_of_nodup (List.nodup_cons.2 ⟨hpath, hnodup⟩) fun n hn => by
        rcases List.mem_cons.1 hn with rfl | hn
        · exact hg.reached_lt hm.1
        · exact hg.reached_lt (hreached n hn)
    simp only [List.length_cons] at hlong
    omega
  | succ fuel ih =>
    intro path hnodup hreached hfuel w m hw hm
    by_cases hseen : m ∈ w.finished ∨ m ∈ path
    · exact leaves_of_seen hw hreached hm hseen
    obtain ⟨hfin, hpath⟩ := not_or.1 hseen
    rw [visit_of_new hw.running hfin hpath]
    have hinner : Visits g fuel (path ++ [m]) := by
      refine ih _ ?_ (fun n hn => ?_) ?_
      · rw [← List.concat_eq_append]
        exact hnodup.concat hpath
      · rcases List.mem_append.1 hn with hn | hn
        · exact hreached n hn
        · obtain rfl := List.mem_singleton.1 hn
          exact hm.1
      · simp only [List.length_append, List.length_singleton]
        omega
    -- A module that is new has none of its dependencies settled.
    have hnone : ∀ j, (⟨m, j⟩ : Edge) ∈ w.settled ↔ j < 0 := fun j =>
      iff_of_false (fun h => (hw.owned _ h).elim hfin hpath) (Nat.not_lt_zero j)
    rcases leaves_pass hinner hm hpath (g.moduleAt m).dependencies 0 w rfl (hw.lengthen hfin)
      hnone with hloop | ⟨hw₁, hg₁, hj⟩
    · rw [finish_of_isSome (not_running hloop)]
      exact .inl hloop
    · have hcomplete : Complete g _ m := fun i hi => hj i (by simpa using hi)
      refine .inr ⟨hw₁.finish hcomplete hm.1 hpath, hg₁.trans ⟨fun n hn => ?_, fun e _ => ?_⟩,
        fun n hn => ?_⟩
      · simp [Walk.finish, hw₁.running, hn]
      · simp [Walk.finish, hw₁.running]
      · simp [Walk.finish, hw₁.running, List.mem_singleton.1 hn]

/-! ### The walk from the root modules -/

def along (g : Graph) (rs : List ModuleId) : Walk := rs.foldl (visit g g.modules.length []) {}

lemma along_spec (hg : g.IsClosed) {rs : List ModuleId} (hrs : ∀ r ∈ rs, r ∈ g.rootModules) :
    (along g rs).Stopped g ∨ (along g rs).Valid g [] ∧ ∀ r ∈ rs, r ∈ (along g rs).finished := by
  have hv : Visits g g.modules.length [] := visits hg _ [] .nil (by simp) (by simp)
  have hstart : ({} : Walk).Valid g [] := ⟨rfl, .nil, by simp, by simp, by simp, by simp⟩
  rcases leaves_foldl hv (fun r hr => ⟨Graph.isReached_root (hrs r hr), .singleton r⟩) hstart with
    hstopped | ⟨hw, -, hroots⟩
  · exact .inl hstopped
  · exact .inr ⟨hw, hroots⟩

/-- A walk from all root modules stops at a cycle, or finishes everything that is reached. -/
theorem ofGraph_spec (hg : g.IsClosed) :
    (ofGraph g).AtLoop g ∨
      (ofGraph g).Valid g [] ∧ ∀ m ∈ g.rootModules, m ∈ (ofGraph g).finished :=
  (along_spec hg fun _ => id).imp_left Stopped.atLoop

/-- **A walk is valid at all times**, but for the cycle that stops it. -/
theorem ofGraph_valid (hg : g.IsClosed) :
    ∃ path, ({ ofGraph g with cycle := none } : Walk).Valid g path := by
  have hspec : (ofGraph g).Stopped g ∨ (ofGraph g).Valid g [] ∧ _ := along_spec hg fun _ => id
  rcases hspec with hstopped | ⟨hw, -⟩
  · exact hstopped.before
  · exact ⟨[], hw.running_eq.symm ▸ hw⟩

/-- Everything that is reached is behind dependencies that a valid walk has settled. -/
lemma Valid.complete_of_isReached {w : Walk} (hw : w.Valid g [])
    (hroots : ∀ m ∈ g.rootModules, m ∈ w.finished) {m : ModuleId} (hm : g.IsReached m) :
    Complete g w.settled m :=
  hm.induction (fun r hr => hw.complete r (hroots r hr)) fun _ _ => hw.ordered.complete_of_leads

/-- **A walk meets a cycle exactly when a cycle is reached.** -/
theorem ofGraph_cycle (hg : g.IsClosed) :
    (g.IsCyclic → (ofGraph g).AtLoop g) ∧ (¬ g.IsCyclic → (ofGraph g).Valid g [] ∧
      ∀ m, g.IsReached m → Complete g (ofGraph g).settled m) := by
  rcases ofGraph_spec hg with ⟨c, hc, hloop⟩ | ⟨hw, hroots⟩
  · exact ⟨fun _ => ⟨c, hc, hloop⟩, fun h => absurd hloop.isCyclic h⟩
  · have hcomplete : ∀ m, g.IsReached m → Complete g (ofGraph g).settled m :=
      fun _ => hw.complete_of_isReached hroots
    refine ⟨fun ⟨m, hm, hcycle⟩ => ?_, fun _ => ⟨hw, hcomplete⟩⟩
    exact absurd hcycle (not_transGen_self (hw.ordered.acc (hcomplete m hm)))

lemma not_isCyclic (hg : g.IsClosed) (h : (ofGraph g).cycle = none) : ¬ g.IsCyclic := fun hc => by
  obtain ⟨c, hsome, -⟩ := (ofGraph_cycle hg).1 hc
  simp [h] at hsome

end Walk

end BuildPlanner.Alias
