import BuildPlanner.Proofs.Build.Trail

/-!
The visits of a walk, one for every edge.

A walk arrives at a build once for each child slot that leads to it, but goes on from it only on the
first arrival. So its visits unfold from the roots in one way (`Unfolds`), and what is to be known
of them follows from that: the visits from a build are together in one block behind the first visit
to the build, with only the blocks of the builds that are new there in between (`Unfolds.split`).
-/

namespace BuildPlanner.Build

open BuildPlanner.Graph
open Relation (ReflTransGen)

variable {g : Graph} {target host : Parameters} {plan : Plan}

/-! ### Definitions -/

/-- The visits to the builds `ks` in turn from a parent at a depth, after the visits of `earlier`.
The first visit to a build is directly followed by the visits to its children. -/
inductive Unfolds (g : Graph) : (earlier : List Visit) → (parent : Option ModuleKey) →
    (depth : Nat) → List ModuleKey → List Visit → Prop
  | nil {earlier : List Visit} {parent : Option ModuleKey} {depth : Nat} :
    Unfolds g earlier parent depth [] []
  | again {earlier : List Visit} {parent : Option ModuleKey} {depth : Nat} {k : ModuleKey}
      {ks : List ModuleKey} {vs : List Visit} (hold : ∃ v ∈ earlier, v.key = k)
      (hrest : Unfolds g (earlier ++ [⟨k, parent, depth⟩]) parent depth ks vs) :
    Unfolds g earlier parent depth (k :: ks) (⟨k, parent, depth⟩ :: vs)
  | first {earlier : List Visit} {parent : Option ModuleKey} {depth : Nat} {k : ModuleKey}
      {ks : List ModuleKey} {inner vs : List Visit} (hnew : ∀ v ∈ earlier, v.key ≠ k)
      (hinner : Unfolds g (earlier ++ [⟨k, parent, depth⟩]) (some k) (depth + 1) (g.childKeys k)
        inner)
      (hrest : Unfolds g (earlier ++ ⟨k, parent, depth⟩ :: inner) parent depth ks vs) :
    Unfolds g earlier parent depth (k :: ks) (⟨k, parent, depth⟩ :: (inner ++ vs))

/-- The parent of visits is none, or a build that was visited. -/
def IsKnown (earlier : List Visit) (parent : Option ModuleKey) : Prop :=
  ∀ k, parent = some k → ∃ v ∈ earlier, v.key = k

def Tour.arrive (t : Tour) (path : List ModuleKey) (k : ModuleKey) : Tour :=
  { t with visits := t.visits ++ [{ key := k, parent := path.head?, depth := path.length + 1 }] }

/-- The builds that were visited are those that were expanded. -/
def Tour.IsSettled (t : Tour) : Prop := ∀ k, k ∈ t.expanded ↔ ∃ v ∈ t.visits, v.key = k

/-! ### Visits that unfold -/

lemma append_eq_append_cons {α : Type} {as bs pre post : List α} {x : α}
    (h : as ++ bs = pre ++ x :: post) :
    (∃ pre', pre = as ++ pre' ∧ bs = pre' ++ x :: post) ∨
      ∃ post', as = pre ++ x :: post' ∧ post = post' ++ bs := by
  rcases List.append_eq_append_iff.1 h with hlater | ⟨cs, has, hcs⟩
  · exact .inl hlater
  · rcases List.cons_eq_append_iff.1 hcs with ⟨rfl, rfl⟩ | ⟨post', rfl, hpost⟩
    · exact .inl ⟨[], by simp [has], rfl⟩
    · exact .inr ⟨post', has, hpost⟩

namespace IsKnown

variable {earlier : List Visit} {parent : Option ModuleKey}

lemma none (earlier : List Visit) : IsKnown earlier none := by simp [IsKnown]

lemma some {v : Visit} (h : v ∈ earlier) : IsKnown earlier (some v.key) := by
  rintro k ⟨⟩
  exact ⟨v, h, rfl⟩

lemma append (h : IsKnown earlier parent) (vs : List Visit) : IsKnown (earlier ++ vs) parent :=
  fun k hk => (h k hk).imp fun _ hv => ⟨List.mem_append_left _ hv.1, hv.2⟩

lemma ne_of_new (h : IsKnown earlier parent) {k : ModuleKey} (hnew : ∀ v ∈ earlier, v.key ≠ k) :
    parent ≠ .some k := by
  rintro rfl
  obtain ⟨v, hv, hkey⟩ := h k rfl
  exact hnew v hv hkey

end IsKnown

namespace Unfolds

variable {earlier vs ws : List Visit} {parent : Option ModuleKey} {depth : Nat}
  {ks ls : List ModuleKey}

lemma leaf {k : ModuleKey} (hnew : ∀ v ∈ earlier, v.key ≠ k) (hleaf : g.childKeys k = []) :
    Unfolds g earlier parent depth [k] [⟨k, parent, depth⟩] := by
  have hinner : Unfolds g (earlier ++ [⟨k, parent, depth⟩]) (some k) (depth + 1) (g.childKeys k)
      [] := by
    rw [hleaf]
    exact .nil
  exact .first hnew hinner .nil

lemma append (h : Unfolds g earlier parent depth ks vs)
    (h' : Unfolds g (earlier ++ vs) parent depth ls ws) :
    Unfolds g earlier parent depth (ks ++ ls) (vs ++ ws) := by
  induction h with
  | nil => simpa using h'
  | again hold _ ih => exact .again hold (ih (by simpa using h'))
  | @first _ _ _ k ks inner vs hnew hinner _ _ ih =>
    have hrest := ih (by simpa using h')
    simpa using Unfolds.first hnew hinner hrest

lemma eq (h : Unfolds g earlier parent depth ks vs) (h' : Unfolds g earlier parent depth ks ws) :
    vs = ws := by
  induction h generalizing ws with
  | nil =>
    cases h'
    rfl
  | again hold _ ih =>
    cases h' with
    | again _ hrest => rw [ih hrest]
    | first hnew _ _ =>
      obtain ⟨v, hv, hkey⟩ := hold
      exact absurd hkey (hnew v hv)
  | first hnew _ _ ihinner ih =>
    cases h' with
    | again hold _ =>
      obtain ⟨v, hv, hkey⟩ := hold
      exact absurd hkey (hnew v hv)
    | first _ hinner hrest =>
      obtain rfl := ihinner hinner
      rw [ih hrest]

lemma parent_eq_or (h : Unfolds g earlier parent depth ks vs) {w : Visit} (hw : w ∈ vs) :
    w.parent = parent ∨ ∃ u ∈ vs, w.parent = some u.key ∧ ∀ v ∈ earlier, v.key ≠ u.key := by
  induction h with
  | nil => simp at hw
  | again hold _ ih =>
    rcases List.mem_cons.1 hw with rfl | hw
    · exact .inl rfl
    · refine (ih hw).imp_right ?_
      rintro ⟨u, hu, hparent, hnew⟩
      exact ⟨u, by simp [hu], hparent, fun v hv => hnew v (by simp [hv])⟩
  | @first earlier parent depth k ks inner vs hnew _ _ ihinner ih =>
    rcases List.mem_cons.1 hw with rfl | hw
    · exact .inl rfl
    · rcases List.mem_append.1 hw with hw | hw
      · -- Inside the block the parent is `k`, which is new, or a build of the block.
        rcases ihinner hw with hparent | ⟨u, hu, hparent, hfresh⟩
        · exact .inr ⟨_, List.mem_cons_self, hparent, hnew⟩
        · exact .inr ⟨u, by simp [hu], hparent, fun v hv => hfresh v (by simp [hv])⟩
      · refine (ih hw).imp_right ?_
        rintro ⟨u, hu, hparent, hfresh⟩
        exact ⟨u, by simp [hu], hparent, fun v hv => hfresh v (by simp [hv])⟩

lemma parent_ne (h : Unfolds g earlier parent depth ks vs) {other : Option ModuleKey}
    (hother : IsKnown earlier other) (hne : parent ≠ other) {w : Visit} (hw : w ∈ vs) :
    w.parent ≠ other := by
  rcases h.parent_eq_or hw with hw | ⟨u, -, hw, hnew⟩
  · rwa [hw]
  · rw [hw]
    rintro rfl
    obtain ⟨v, hv, hkey⟩ := hother u.key rfl
    exact hnew v hv hkey

lemma parent_ne_of_forall (h : Unfolds g earlier parent depth ks vs) {k : ModuleKey}
    (hne : parent ≠ some k) (hvs : ∀ v ∈ vs, v.key ≠ k) {w : Visit} (hw : w ∈ vs) :
    w.parent ≠ some k := by
  rcases h.parent_eq_or hw with hw | ⟨u, hu, hw, -⟩
  · rwa [hw]
  · simpa [hw] using hvs u hu

lemma filter_parent (h : Unfolds g earlier parent depth ks vs) (hparent : IsKnown earlier parent) :
    vs.filter (·.parent = parent) = ks.map fun k => ⟨k, parent, depth⟩ := by
  induction h with
  | nil => rfl
  | again _ _ ih => simp [ih (hparent.append _)]
  | @first earlier parent depth k ks inner vs hnew hinner _ _ ih =>
    have hinside : inner.filter (·.parent = parent) = [] := by
      rw [List.filter_eq_nil_iff]
      intro w hw
      simpa using hinner.parent_ne (hparent.append _) (hparent.ne_of_new hnew).symm hw
    simp [ih (hparent.append _), hinside]

/-- **The visits from a build are together.** Behind the first visit to a build there is the block
of visits that unfolds from its children, and no other visit is from the build. -/
lemma split (h : Unfolds g earlier parent depth ks vs) (hparent : IsKnown earlier parent)
    {pre post : List Visit} {v : Visit} (hvs : vs = pre ++ v :: post)
    (hfirst : ∀ u ∈ earlier ++ pre, u.key ≠ v.key) :
    ∃ inner rest, post = inner ++ rest ∧
      Unfolds g (earlier ++ pre ++ [v]) (some v.key) (v.depth + 1) (g.childKeys v.key) inner ∧
        ∀ w ∈ pre ++ v :: rest, w.parent ≠ some v.key := by
  -- The parent was visited, so it is not the build that is new at `v`.
  have hne : parent ≠ some v.key := hparent.ne_of_new fun u hu => hfirst u (by simp [hu])
  induction h generalizing pre post with
  | nil => simp at hvs
  | @again earlier parent depth k ks vs hold hrest ih =>
    cases pre with
    | nil =>
      obtain ⟨rfl, -⟩ := List.cons.inj hvs
      obtain ⟨u, hu, hkey⟩ := hold
      exact absurd hkey (hfirst u (by simpa using hu))
    | cons x pre =>
      obtain ⟨rfl, htail⟩ := List.cons.inj (List.cons_append ▸ hvs)
      obtain ⟨inner, rest, hpost, hinner, hothers⟩ :=
        ih (hparent.append _) htail (by simpa using hfirst) hne
      refine ⟨inner, rest, hpost, by simpa using hinner, ?_⟩
      simpa [List.forall_mem_cons, hne] using hothers
  | @first earlier parent depth k ks inner vs hnew hinner hrest ihinner ih =>
    cases pre with
    | nil =>
      obtain ⟨rfl, rfl⟩ := List.cons.inj hvs
      refine ⟨inner, vs, rfl, by simpa using hinner, ?_⟩
      have hothers : ∀ w ∈ vs, w.parent ≠ some k := fun w hw =>
        hrest.parent_ne (IsKnown.some (by simp)) hne hw
      simpa [List.forall_mem_cons, hne] using hothers
    | cons x pre =>
      obtain ⟨rfl, htail⟩ := List.cons.inj (List.cons_append ▸ hvs)
      have hk : k ≠ v.key := hfirst ⟨k, parent, depth⟩ (by simp)
      rcases append_eq_append_cons htail with ⟨pre', rfl, hlater⟩ | ⟨post', hsplit, rfl⟩
      · -- The first visit to the build is behind the block of `k`.
        obtain ⟨inner', rest, hpost, hblock, hothers⟩ :=
          ih (hparent.append _) hlater (by simpa using hfirst) hne
        refine ⟨inner', rest, hpost, by simpa using hblock, ?_⟩
        have hinside : ∀ w ∈ inner, w.parent ≠ some v.key := fun w hw =>
          hinner.parent_ne_of_forall (by simpa using hk) (fun u hu => hfirst u (by simp [hu])) hw
        simp only [List.forall_mem_append, List.forall_mem_cons, List.cons_append] at hothers ⊢
        exact ⟨hne, ⟨hinside, hothers.1⟩, hothers.2⟩
      · -- It is in the block of `k`.
        obtain ⟨inner', rest, rfl, hblock, hothers⟩ :=
          ihinner (IsKnown.some (v := ⟨k, parent, depth⟩) (by simp)) hsplit
            (by simpa using hfirst) (by simpa using hk)
        refine ⟨inner', rest ++ vs, List.append_assoc .., by simpa using hblock, ?_⟩
        have hbehind : ∀ w ∈ vs, w.parent ≠ some v.key := fun w hw =>
          hrest.parent_ne (IsKnown.some (by simp [hsplit])) hne hw
        simp only [List.forall_mem_append, List.forall_mem_cons, List.cons_append] at hothers ⊢
        exact ⟨hne, hothers.1, hothers.2.1, hothers.2.2, hbehind⟩

lemma explored (h : Unfolds g earlier parent depth ks vs) :
    Explored g.childKeys (earlier.map Visit.key) ks ((earlier ++ vs).map Visit.key) := by
  induction h with
  | nil => simpa using Explored.refl _
  | @again earlier parent depth k ks vs hold _ ih =>
    have hmem : k ∈ earlier.map Visit.key := List.mem_map.2 hold
    have hrest : Explored g.childKeys (earlier.map Visit.key) ks _ := ih.congr fun l => by
      simp only [List.map_append, List.mem_append, List.map_cons, List.map_nil,
        List.mem_singleton, or_iff_left_iff_imp]
      rintro rfl
      exact hmem
    simpa using (Explored.of_mem hmem).trans hrest
  | @first earlier parent depth k ks inner vs hnew _ _ ihinner ih =>
    have hblock : Explored g.childKeys (k :: earlier.map Visit.key) (g.childKeys k) _ :=
      ihinner.congr fun l => by simp [or_comm]
    rw [List.append_assoc] at hblock
    simpa using hblock.step.trans ih

lemma mem_iff (h : Unfolds g [] parent depth ks vs) (k : ModuleKey) : (∃ v ∈ vs, v.key = k) ↔
    ∃ r ∈ ks, ReflTransGen (fun k l => l ∈ g.childKeys k) r k := by
  have hexplored := h.explored
  rw [List.nil_append, List.map_nil] at hexplored
  rw [← hexplored.mem_iff, List.mem_map]

end Unfolds

lemma exists_first {vs : List Visit} {k : ModuleKey} (h : ∃ v ∈ vs, v.key = k) :
    ∃ pre first post, vs = pre ++ first :: post ∧ first.key = k ∧ ∀ u ∈ pre, u.key ≠ k := by
  obtain ⟨v, hv⟩ := Option.isSome_iff_exists.1
    ((List.find?_isSome (p := fun v : Visit => decide (v.key = k))).2 (by simpa using h))
  obtain ⟨hkey, pre, post, hsplit, hpre⟩ := List.find?_eq_some_iff_append.1 hv
  exact ⟨pre, v, post, hsplit, by simpa using hkey, by simpa using hpre⟩

/-! ### Tours -/

section Tours

variable {fuel : Nat} {path : List ModuleKey} {t : Tour} {k : ModuleKey}

lemma tour_of_expanded (hk : (plan.module? k).isSome = true) (hlt : k.module < g.modules.length)
    (hpath : k ∉ path) (hmem : k ∈ t.expanded) :
    plan.tour g fuel path t k = .ok (t.arrive path k) := by
  unfold Plan.tour
  simp [Option.isNone_iff_eq_none, Option.isSome_iff_ne_none.1 hk, hpath, module_of_lt hlt, hmem]
  rfl

lemma tour_of_new (hg : g.IsClosed) (hk : (plan.module? k).isSome = true)
    (hlt : k.module < g.modules.length) (hpath : k ∉ path) (hnew : k ∉ t.expanded) :
    plan.tour g (fuel + 1) path t k = (g.childKeys k).foldlM (plan.tour g fuel (k :: path))
      { t.arrive path k with expanded := k :: t.expanded } := by
  have hplanned : ¬ (plan.module? k).isNone = true := by simpa [Option.isSome_iff_ne_none] using hk
  rw [Plan.tour]
  simp only [hplanned, hpath, hnew, module_of_lt hlt, hg.slots_eq, List.foldlM_map, if_false]
  rfl

end Tours

/-- A walk from the builds `ks` along a path, after which the builds that were visited are again
those that were expanded, has added visits that unfold. -/
def Toured (g : Graph) (path : List ModuleKey) (t : Tour) (ks : List ModuleKey) (t' : Tour) :
    Prop :=
  t.IsSettled → t'.IsSettled ∧ ∃ vs, t'.visits = t.visits ++ vs ∧
    Unfolds g t.visits path.head? (path.length + 1) ks vs

namespace Toured

variable {path : List ModuleKey} {t t' t'' : Tour} {k : ModuleKey} {ks ls : List ModuleKey}

lemma refl (path : List ModuleKey) (t : Tour) : Toured g path t [] t :=
  fun h => ⟨h, [], (List.append_nil _).symm, .nil⟩

lemma trans (h : Toured g path t ks t') (h' : Toured g path t' ls t'') :
    Toured g path t (ks ++ ls) t'' := by
  intro hsettled
  obtain ⟨hsettled, vs, hvs, hunfolds⟩ := h hsettled
  obtain ⟨hsettled, ws, hws, hunfolds'⟩ := h' hsettled
  rw [hvs] at hunfolds'
  exact ⟨hsettled, vs ++ ws, by rw [hws, hvs, List.append_assoc], hunfolds.append hunfolds'⟩

lemma arrive (hk : k ∈ t.expanded) (path : List ModuleKey) :
    Toured g path t [k] (t.arrive path k) := by
  intro hsettled
  refine ⟨fun l => ?_, _, rfl, .again ((hsettled k).1 hk) .nil⟩
  rw [Tour.arrive, hsettled l]
  simp only [List.mem_append, List.mem_singleton, or_and_right, exists_or, exists_eq_left]
  refine (or_iff_left_of_imp ?_).symm
  rintro rfl
  exact (hsettled k).1 hk

/-- A walk from all children of a new build is one from the build. -/
lemma step (hk : k ∉ t.expanded)
    (h : Toured g (k :: path) { t.arrive path k with expanded := k :: t.expanded } (g.childKeys k)
      t') : Toured g path t [k] t' := by
  intro hsettled
  have hstart : Tour.IsSettled { t.arrive path k with expanded := k :: t.expanded } := by
    intro l
    simp only [Tour.arrive, List.mem_cons, hsettled l, List.mem_append, or_and_right, exists_or]
    rw [or_comm, eq_comm]
    simp
  obtain ⟨hsettled', vs, hvs, hunfolds⟩ := h hstart
  refine ⟨hsettled', ⟨k, path.head?, path.length + 1⟩ :: (vs ++ []), by simp [hvs, Tour.arrive], ?_⟩
  refine .first (fun v hv hkey => hk ((hsettled k).2 ⟨v, hv, hkey⟩)) ?_ .nil
  exact hunfolds

end Toured

/-- A walk along a path of the plan ends, with visits that unfold. The fuel covers what is left of
the longest path. -/
lemma exists_tour (hg : g.IsClosed) (hplan : plan.Covers g) {fuel : Nat} :
    ∀ (path : List ModuleKey) (t : Tour) (k : ModuleKey), Trail g (k :: path) →
      plan.modules.length ≤ fuel + path.length →
        ∃ t', plan.tour g fuel path t k = .ok t' ∧ Toured g path t [k] t' := by
  induction fuel with
  | zero =>
    intro path t k htrail hfuel
    have hlength := htrail.length_le hplan.acyclic
    rw [List.length_cons, ← hplan.length] at hlength
    omega
  | succ fuel ih =>
    intro path t k htrail hfuel
    have hk : k ∈ g.reachedModules := htrail.planned k (by simp)
    have hlt := lt_of_mem_reachedModules hk
    have hpath : k ∉ path := (List.nodup_cons.1 (htrail.nodup hplan.acyclic)).1
    by_cases hmem : k ∈ t.expanded
    · exact ⟨_, tour_of_expanded ((hplan.planned k).2 hk) hlt hpath hmem, .arrive hmem path⟩
    · rw [tour_of_new hg ((hplan.planned k).2 hk) hlt hpath hmem]
      have hchild : ∀ l ∈ g.childKeys k, ∀ s, True →
          ∃ s', plan.tour g fuel (k :: path) s l = .ok s' ∧ Toured g (k :: path) s [l] s' := by
        intro l hl s _
        refine ih (k :: path) s l (htrail.child hg hl) ?_
        rw [List.length_cons]
        omega
      obtain ⟨t', ht', htoured⟩ := Fault.exists_foldlM (Toured.refl _) Toured.trans
        (fun _ _ => trivial) hchild trivial
      rw [List.flatMap_singleton'] at htoured
      exact ⟨t', ht', htoured.step hmem⟩

lemma exists_visits (hg : g.IsClosed) (hplan : plan.Covers g) :
    ∃ vs, plan.visits g = .ok vs ∧ Unfolds g [] none 1 plan.roots vs := by
  have hroot : ∀ r ∈ plan.roots, ∀ t : Tour, True →
      ∃ t', plan.tour g plan.modules.length [] t r = .ok t' ∧ Toured g [] t [r] t' := by
    intro r hr t _
    rw [hplan.roots] at hr
    obtain ⟨m, hm, rfl⟩ := List.mem_map.1 hr
    exact exists_tour hg hplan [] t _ (hplan.trail (hg.mem_reachedModules_of_root hm)) (by simp)
  obtain ⟨t, ht, htoured⟩ := Fault.exists_foldlM (Toured.refl (g := g) []) Toured.trans
    (fun _ _ => trivial) hroot (s := {}) trivial
  rw [List.flatMap_singleton'] at htoured
  obtain ⟨-, vs, hvs, hunfolds⟩ := htoured fun l => by simp
  refine ⟨vs, ?_, hunfolds⟩
  simp [Plan.visits, ht, hvs]

/-- **A walk through a plan visits every child slot of every build once.** The visits of the walk
unfold from the root builds, in the only way there is. Those without a parent are one for each root
build in turn. A build that is visited has a first visit. The visits from the build are one for each
of its child slots in turn, one deeper than the first visit, and they are in the block that unfolds
directly behind it, and nowhere else. The builds that are visited are those that the roots lead
to. -/
theorem visits_unfold (hg : g.IsClosed) {engine : Diagnostic.Engine} {a : Attempt} {plan : Plan}
    (h : create g target host engine = .ok a) (hplan : a.plan = some plan) :
    ∃ vs, plan.visits g = .ok vs ∧ (∀ ws, Unfolds g [] none 1 plan.roots ws ↔ ws = vs) ∧
      vs.filter (·.parent = none) = plan.roots.map (fun k => ⟨k, none, 1⟩) ∧
      (∀ k, (∃ v ∈ vs, v.key = k) → ∃ pre first inner rest,
        vs = pre ++ first :: (inner ++ rest) ∧ first.key = k ∧ (∀ u ∈ pre, u.key ≠ k) ∧
        vs.filter (·.parent = some k) =
          (g.childKeys k).map (fun l => ⟨l, some k, first.depth + 1⟩) ∧
        Unfolds g (pre ++ [first]) (some k) (first.depth + 1) (g.childKeys k) inner ∧
        ∀ w ∈ pre ++ first :: rest, w.parent ≠ some k) ∧
      ∀ k, (∃ v ∈ vs, v.key = k) ↔
        ∃ r ∈ plan.roots, ReflTransGen (fun k l => l ∈ g.childKeys k) r k := by
  obtain ⟨vs, hvs, hunfolds⟩ := exists_visits hg (covers_of_create hg h hplan)
  refine ⟨vs, hvs, fun ws => ⟨fun hws => hws.eq hunfolds, fun hws => hws ▸ hunfolds⟩,
    hunfolds.filter_parent (.none _), fun k hk => ?_, hunfolds.mem_iff⟩
  obtain ⟨pre, first, post, hsplit, rfl, hfirst⟩ := exists_first hk
  obtain ⟨inner, rest, rfl, hinner, hothers⟩ :=
    hunfolds.split (.none _) hsplit (by simpa using hfirst)
  refine ⟨pre, first, inner, rest, hsplit, rfl, hfirst, ?_, hinner, hothers⟩
  have hblock := hinner.filter_parent (IsKnown.some (by simp))
  have hnone : ∀ ws : List Visit, (∀ w ∈ ws, w.parent ≠ some first.key) →
      ws.filter (·.parent = some first.key) = [] := fun ws hws =>
    List.filter_eq_nil_iff.2 (by simpa using hws)
  rw [List.forall_mem_append, List.forall_mem_cons] at hothers
  rw [hsplit, List.filter_append, List.filter_cons_of_neg (by simpa using hothers.2.1),
    List.filter_append, hnone pre hothers.1, hnone rest hothers.2.2, hblock]
  simp

/-- An application and a macro that both use a library by way of a product. -/
def vended : Graph where
  packages := [
    { identity := "app", display := "app", isRoot := true, modules := [0, 1] },
    { identity := "core", display := "core", modules := [2], products := [0] }]
  modules := [
    { name := "App", kind := .executable, dependencies := [.module 1, .product 0 []] },
    { name := "Macros", kind := .codeMacro, dependencies := [.product 0 []] },
    { name := "Core", owner := 1 }]
  products := [{ name := "core", owner := 1, kind := .staticLibrary, modules := [2] }]

lemma exists_plan_vended : vended.IsClosed ∧ ∃ a plan,
    create vended (.debug .target) (.debug .host) {} = .ok a ∧ a.plan = some plan ∧
      plan.roots = [⟨0, .target⟩, ⟨1, .host⟩] := by
  obtain ⟨a, plan, hcreate, hplan, hroots⟩ : ∃ a plan, create vended (.debug .target)
      (.debug .host) {} = .ok a ∧ a.plan = some plan ∧ _ :=
    exists_plan (fun plan => plan.roots = [⟨0, .target⟩, ⟨1, .host⟩]) (by decide +kernel)
  exact ⟨by decide, a, plan, hcreate, hplan, of_decide_eq_true hroots⟩

/-- The macro is visited from the application, with the library behind it, and as a root. -/
theorem visits_unfold_vended : vended.IsClosed ∧ ∃ a plan,
    create vended (.debug .target) (.debug .host) {} = .ok a ∧ a.plan = some plan ∧
      plan.visits vended = .ok [⟨⟨0, .target⟩, none, 1⟩, ⟨⟨1, .host⟩, some ⟨0, .target⟩, 2⟩,
        ⟨⟨2, .host⟩, some ⟨1, .host⟩, 3⟩, ⟨⟨2, .target⟩, some ⟨0, .target⟩, 2⟩,
        ⟨⟨1, .host⟩, none, 1⟩] := by
  obtain ⟨hg, a, plan, hcreate, hplan, hroots⟩ := exists_plan_vended
  obtain ⟨vs, hvs, hunique, -⟩ := visits_unfold hg hcreate hplan
  refine ⟨hg, a, plan, hcreate, hplan, hvs.trans (congrArg Except.ok ((hunique _).1 ?_).symm)⟩
  rw [hroots]
  have hlibrary : Unfolds vended [⟨⟨0, .target⟩, none, 1⟩, ⟨⟨1, .host⟩, some ⟨0, .target⟩, 2⟩]
      (some ⟨1, .host⟩) 3 [⟨2, .host⟩] [⟨⟨2, .host⟩, some ⟨1, .host⟩, 3⟩] :=
    .leaf (by decide) rfl
  have hmacros : Unfolds vended [⟨⟨0, .target⟩, none, 1⟩] (some ⟨0, .target⟩) 2
      [⟨1, .host⟩, ⟨2, .target⟩] [⟨⟨1, .host⟩, some ⟨0, .target⟩, 2⟩,
        ⟨⟨2, .host⟩, some ⟨1, .host⟩, 3⟩, ⟨⟨2, .target⟩, some ⟨0, .target⟩, 2⟩] :=
    @Unfolds.first _ [_] _ _ ⟨1, .host⟩ [_] _ _ (by decide) hlibrary (.leaf (by decide) rfl)
  exact @Unfolds.first _ [] _ _ ⟨0, .target⟩ [_] _ _ (by decide) hmacros (.again (by decide) .nil)

end BuildPlanner.Build
