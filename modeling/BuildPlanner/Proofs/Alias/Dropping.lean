import BuildPlanner.Proofs.Alias.Ambiguity
import BuildPlanner.Proofs.Alias.Locality

/-!
What a dropped dependency leaves behind in screening.

A dependency that asks for an invalid name is passed over. One that is dropped because it disagrees
with an earlier one still counts for the other names it asks for, as screening compares what is
asked for and not what survives. It makes no difference exactly if everything that it is the first
to ask for is asked for again in the same way (`Echoes`).
-/

namespace BuildPlanner.Alias

variable {g : Graph} {e f : Edge}

/-! ### Definitions -/

def screened (g : Graph) : List Diagnostic := (g.modules.map (Screening.ofModule g)).flatMap (·.log)

def edges (g : Graph) : List Edge :=
  g.moduleIds.flatMap fun m => (List.range (g.moduleAt m).dependencies.length).map (Edge.mk m)

/-- Whatever the dependency at a position is the first to ask for, the next that asks for the same
name asks for too. -/
def Echoes (g : Graph) (ds : List Dependency) (i : Nat) : Prop :=
  ∀ k name v w, (ds.take i).findSome? (asked? g k name) = none →
    ds[i]?.bind (asked? g k name) = some v →
      (ds.drop (i + 1)).findSome? (asked? g k name) = some w → v = w

/-! ### One dependency behind others -/

section List

variable {requester : String} {ds before before' : List Dependency} {d : Dependency} {i j : Nat}
  {k : PackageId} {name : String}

lemma mem_reported (requester : String) (before : List Dependency) {p : ProductId}
    {rs : List AliasRequest} {v w : String}
    (hw : asked? g (g.productAt p).owner name (.product p rs) = some w) :
    .moduleAliasAmbiguous [v, w] name (g.productAt p).name (g.vendorOf p).display ∈
        reported g requester before (.product p rs) ↔
      before.findSome? (asked? g (g.productAt p).owner name) = some v ∧ v ≠ w := by
  rw [Screening.mem_reported_of_valid (asked?_product_eq_some.1 hw).2.1]
  refine ⟨?_, ?_⟩
  · rintro ⟨name', w', hw', v', hv, hne, hx⟩
    obtain ⟨hnames, rfl, -, -⟩ := Diagnostic.moduleAliasAmbiguous.inj hx
    obtain ⟨rfl, rfl⟩ : v = v' ∧ w = w' := by simpa using hnames
    exact ⟨hv, hne⟩
  · rintro ⟨hv, hne⟩
    exact ⟨name, w, hw, v, hv, hne, rfl⟩

/-- What is reported on a dependency depends on those before it only through what they are the
first to ask for, and only where it asks for something else. -/
lemma reported_congr (h : ∀ k name v w, asked? g k name d = some w → v ≠ w →
      (before.findSome? (asked? g k name) = some v ↔
        before'.findSome? (asked? g k name) = some v)) :
    reported g requester before d = reported g requester before' d := by
  cases d with
  | module m => rfl
  | product p rs =>
    by_cases hall : ∀ r ∈ rs, Name.isValid r.replacement = true
    · rw [Screening.reported_of_valid hall, Screening.reported_of_valid hall]
      refine List.filterMap_congr fun r hr => Option.ext fun x => ?_
      have hasked : asked? g (g.productAt p).owner r.name (.product p rs) = some r.replacement :=
        asked?_product_eq_some.2 ⟨rfl, hall, hr⟩
      rw [Screening.clash?_eq_some, Screening.clash?_eq_some]
      refine exists_congr fun v => ?_
      rw [← and_assoc, ← and_assoc]
      refine and_congr_left' (and_congr_left fun hne => ?_)
      exact h _ _ v _ hasked hne
    · rw [Screening.reported_of_not_valid hall, Screening.reported_of_not_valid hall]

lemma findSome?_modify (ds : List Dependency) (i : Nat) :
    (ds.modify i Dependency.unaliased).findSome? (asked? g k name) =
      ((ds.take i).findSome? (asked? g k name)).or
        ((ds.drop (i + 1)).findSome? (asked? g k name)) := by
  rcases Nat.lt_or_ge i ds.length with hi | hi
  · have hnone : asked? g k name ds[i].unaliased = none := by
      cases ds[i] <;> simp [Dependency.unaliased, asked?, wanted?]
    rw [List.modify_eq_take_cons_drop hi, List.findSome?_append, List.findSome?_cons_of_isNone
      (by simp [hnone])]
  · rw [List.modify_eq_self hi, List.take_of_length_le hi,
      List.drop_eq_nil_of_le (Nat.le_succ_of_le hi), List.findSome?_nil, Option.or_none]

lemma findSome?_eq_or (ds : List Dependency) (i : Nat) :
    ds.findSome? (asked? g k name) = ((ds.take i).findSome? (asked? g k name)).or
      ((ds[i]?.bind (asked? g k name)).or ((ds.drop (i + 1)).findSome? (asked? g k name))) := by
  rcases Nat.lt_or_ge i ds.length with hi | hi
  · nth_rewrite 1 [← List.take_append_drop i ds]
    rw [List.drop_eq_getElem_cons hi, List.findSome?_append, List.findSome?_cons,
      List.getElem?_eq_getElem hi]
    cases hown : asked? g k name ds[i] <;> simp [hown]
  · rw [List.take_of_length_le hi, List.drop_eq_nil_of_le (Nat.le_succ_of_le hi),
      List.getElem?_eq_none hi]
    simp

lemma drop_eq_append (hij : i < j) (hd : ds[j]? = some d) :
    ds.drop (i + 1) = (ds.take j).drop (i + 1) ++ d :: ds.drop (j + 1) := by
  obtain ⟨hj, rfl⟩ := List.getElem?_eq_some_iff.1 hd
  rw [← List.drop_eq_getElem_cons hj]
  nth_rewrite 1 [← List.take_append_drop j ds]
  rw [List.drop_append_of_le_length (by rw [List.length_take_of_le hj.le]; exact hij)]

/-- If all it is the first to ask for is asked for again, the aliases of a dependency make no
difference to what is reported on another one. -/
lemma Echoes.reported_modify (h : Echoes g ds i) (hij : i ≠ j) (hd : ds[j]? = some d) :
    reported g requester ((ds.modify i Dependency.unaliased).take j) d =
      reported g requester (ds.take j) d := by
  rw [List.take_modify]
  rcases Nat.lt_or_gt_of_ne hij with hij | hij
  · refine reported_congr fun k name u w hw hne => ?_
    have hecho := h k name
    rw [drop_eq_append hij hd, List.findSome?_append, List.findSome?_cons, hw] at hecho
    rw [findSome?_modify, findSome?_eq_or (ds.take j) i, List.take_take, Nat.min_eq_left hij.le,
      List.getElem?_take_of_lt hij]
    -- The two differ only if the dependency is the first to ask for the name.
    cases hfirst : (ds.take i).findSome? (asked? g k name) with
    | some v => simp
    | none =>
      cases hown : ds[i]?.bind (asked? g k name) with
      | none => simp
      | some v =>
        cases hnext : ((ds.take j).drop (i + 1)).findSome? (asked? g k name) with
        | some v' => simp [hecho v v' hfirst hown (by simp [hnext])]
        | none =>
          obtain rfl := hecho v w hfirst hown (by simp [hnext])
          simp [hne.symm]
  · rw [List.modify_eq_self (by rw [List.length_take]; omega)]

/-- If something that it is the first to ask for is not asked for again in the same way, the aliases
of a dependency make a difference to what is reported on another one. -/
lemma echoes_of_reported (requester : String) (h : ∀ j d, i ≠ j → ds[j]? = some d →
      reported g requester ((ds.modify i Dependency.unaliased).take j) d =
        reported g requester (ds.take j) d) : Echoes g ds i := by
  intro k name v w hfirst hown hnext
  by_contra hne
  obtain ⟨between, d, behind, hdrop, hw, hsilent⟩ := List.findSome?_eq_some_iff.1 hnext
  -- The next to ask for the name clashes with the dependency, and with nothing else.
  obtain ⟨j, hj⟩ : ∃ j, j = i + 1 + between.length := ⟨_, rfl⟩
  have hij : i < j := by omega
  have hd : ds[j]? = some d := by rw [hj, ← List.getElem?_drop, hdrop]; simp
  have hbetween : (ds.take j).drop (i + 1) = between := by
    rw [List.drop_take, hdrop, hj]
    simp
  have hquiet : ((ds.take j).drop (i + 1)).findSome? (asked? g k name) = none := by
    rw [hbetween]
    exact List.findSome?_eq_none_iff.2 hsilent
  cases d with
  | module m => cases hw
  | product p rs =>
    obtain ⟨rfl, -, -⟩ := asked?_product_eq_some.1 hw
    have hclash := (mem_reported requester (ds.take j) (v := v) hw).2
    rw [findSome?_eq_or (ds.take j) i, List.take_take, Nat.min_eq_left hij.le,
      List.getElem?_take_of_lt hij, hfirst, hown] at hclash
    have hmem := hclash ⟨rfl, hne⟩
    rw [← h j _ hij.ne hd, List.take_modify, mem_reported _ _ hw, findSome?_modify, List.take_take,
      Nat.min_eq_left hij.le, hfirst, hquiet] at hmem
    cases hmem.1

end List

/-! ### All dependencies -/

lemma reported_unalias : reported (g.unalias e) = reported g := by
  have hadd (requester : String) : Screening.add (g.unalias e) requester =
      Screening.add g requester := by
    funext s ⟨d, i⟩
    cases d <;> rfl
  funext requester before d
  cases d with
  | module m => rfl
  | product p rs => simp only [reported, Screening.ofList, hadd]; rfl

lemma length_dependencies_unalias (m : ModuleId) :
    ((g.unalias e).moduleAt m).dependencies.length = (g.moduleAt m).dependencies.length := by
  rw [Graph.moduleAt_unalias]
  dsimp only
  split
  · exact List.length_modify ..
  · rfl

lemma edges_unalias : edges (g.unalias e) = edges g := by
  have hids : (g.unalias e).moduleIds = g.moduleIds := by
    rw [Graph.moduleIds, Graph.moduleIds, Graph.unalias, List.length_modify]
  simp only [edges, hids, length_dependencies_unalias]

lemma screened_eq_flatMap (g : Graph) : screened g = (edges g).flatMap (reportsOn g) := by
  have hlog (m : ModuleId) : (Screening.ofModule g (g.moduleAt m)).log =
      (List.range (g.moduleAt m).dependencies.length).flatMap fun i => reportsOn g ⟨m, i⟩ :=
    eq_flatMap_range (F := fun ds => (Screening.ofList g (g.moduleAt m).name ds).log) rfl
      (fun _ _ => Screening.log_append_singleton) _
  have hmodules : g.modules = g.moduleIds.map g.moduleAt := by
    refine List.ext_getElem (by simp [Graph.moduleIds]) fun i hi _ => ?_
    simp [Graph.moduleIds, Graph.moduleAt, hi]
  calc screened g
      = g.moduleIds.flatMap fun m => (Screening.ofModule g (g.moduleAt m)).log := by
        rw [screened, hmodules, List.flatMap_map, List.flatMap_map]
    _ = g.moduleIds.flatMap fun m =>
          (List.range (g.moduleAt m).dependencies.length).flatMap fun i => reportsOn g ⟨m, i⟩ :=
        List.flatMap_congr fun m _ => hlog m
    _ = (edges g).flatMap (reportsOn g) := by
        simp only [edges, List.flatMap_assoc, List.flatMap_map]

lemma reportsOn_unalias_self : reportsOn (g.unalias e) e = [] := by
  rw [reportsOn, atPosition, Graph.getElem?_dependencies_unalias, reported_unalias]
  cases (g.moduleAt e.consumer).dependencies[e.order]? with
  | none => rfl
  | some d =>
    refine Screening.reported_eq_nil.2 ?_
    cases d <;> simp [Dependency.unaliased, Dependency.aliases, asked?, wanted?]

lemma reportsOn_unalias {c : ModuleId} {i j : Nat} (hij : i ≠ j) :
    reportsOn (g.unalias ⟨c, i⟩) ⟨c, j⟩ = match (g.moduleAt c).dependencies[j]? with
      | none => []
      | some d => reported g (g.moduleAt c).name
          (((g.moduleAt c).dependencies.modify i Dependency.unaliased).take j) d := by
  rw [reportsOn, atPosition, Graph.moduleAt_unalias, reported_unalias]
  simp only [if_true, List.getElem?_modify, if_neg hij]
  cases (g.moduleAt c).dependencies[j]? <;> rfl

lemma reportsOn_unalias_of_ne (h : e.consumer ≠ f.consumer) :
    reportsOn (g.unalias e) f = reportsOn g f := by
  rw [reportsOn, Graph.moduleAt_unalias, reported_unalias, if_neg h]
  rfl

/-- **A dependency makes no difference to what is reported on the others exactly if all it is the
first to ask for is asked for again in the same way.** -/
theorem echoes_iff : Echoes g (g.moduleAt e.consumer).dependencies e.order ↔
    ∀ f, f ≠ e → reportsOn (g.unalias e) f = reportsOn g f := by
  obtain ⟨c, i⟩ := e
  refine ⟨?_, ?_⟩
  · rintro h ⟨m, j⟩ hf
    by_cases hm : c = m
    · subst hm
      have hij : i ≠ j := fun hij => hf (by rw [hij])
      rw [reportsOn_unalias hij, reportsOn, atPosition]
      cases hd : (g.moduleAt c).dependencies[j]? with
      | none => rfl
      | some d => exact h.reported_modify hij hd
    · exact reportsOn_unalias_of_ne hm
  · refine fun h => echoes_of_reported (g.moduleAt c).name fun j d hij hd => ?_
    have hreports := h ⟨c, j⟩ (by simpa using hij.symm)
    rw [reportsOn_unalias hij, reportsOn, atPosition] at hreports
    simpa only [hd] using hreports

lemma survivors_unalias (hdropped : reportsOn g e ≠ [])
    (h : ∀ f, f ≠ e → reportsOn (g.unalias e) f = reportsOn g f) (m : ModuleId) (i : Nat) :
    survivors (g.unalias e) m i = survivors g m i := by
  rw [survivors_eq_ite, survivors_eq_ite, Graph.getElem?_dependencies_unalias]
  by_cases he : e = ⟨m, i⟩
  · rw [← he, if_neg hdropped, reportsOn_unalias_self, if_pos rfl, he]
    cases (g.moduleAt m).dependencies[i]? with
    | none => rfl
    | some d => cases d <;> simp [Dependency.unaliased, Dependency.aliases, effective]
  · simp only [if_neg he, Option.map_id', h ⟨m, i⟩ (Ne.symm he)]

lemma echoes_of_invalid {ds : List Dependency} {i : Nat} {d : Dependency} (hd : ds[i]? = some d)
    (h : ∃ r ∈ d.aliases, Name.isValid r.replacement = false) : Echoes g ds i := by
  intro k name v w _ hown
  rw [hd, Option.bind_some] at hown
  obtain ⟨r, hr, hinvalid⟩ := h
  cases d with
  | module m => cases hr
  | product p rs =>
    obtain ⟨-, hall, -⟩ := asked?_product_eq_some.1 hown
    exact absurd (hall r hr) (by simp [hinvalid])

/-- **A dropped dependency leaves no trace in screening exactly if all it is the first to ask for is
asked for again in the same way.** Screening the graph in which it asks for no aliases then keeps
what survives of every other dependency, and reports the same but for what was reported on it. This
holds in particular if it is dropped because it asks for an invalid name. -/
theorem screening_unalias (hdropped : reportsOn g e ≠ []) :
    (Echoes g (g.moduleAt e.consumer).dependencies e.order ↔
      (∀ m i, survivors (g.unalias e) m i = survivors g m i) ∧
        ∀ f, f ≠ e → reportsOn (g.unalias e) f = reportsOn g f) ∧
    (Echoes g (g.moduleAt e.consumer).dependencies e.order →
      screened (g.unalias e) = (edges g).flatMap fun f => if f = e then [] else reportsOn g f) ∧
    screened g = (edges g).flatMap (reportsOn g) ∧ survivors g e.consumer e.order = [] ∧
    ∀ d, (g.moduleAt e.consumer).dependencies[e.order]? = some d →
      (∃ r ∈ d.aliases, Name.isValid r.replacement = false) →
        Echoes g (g.moduleAt e.consumer).dependencies e.order := by
  have hdrops : survivors g e.consumer e.order = [] := by
    rw [survivors_eq_ite, if_neg hdropped]
  refine ⟨⟨fun h => ?_, fun h => echoes_iff.2 h.2⟩, fun h => ?_, screened_eq_flatMap g, hdrops,
    fun d hd => echoes_of_invalid hd⟩
  · have hreports := echoes_iff.1 h
    exact ⟨survivors_unalias hdropped hreports, hreports⟩
  · rw [screened_eq_flatMap, edges_unalias]
    refine List.flatMap_congr fun f _ => ?_
    split
    · next hf => rw [hf, reportsOn_unalias_self]
    · next hf => exact echoes_iff.1 h f hf

/-- An application with three dependencies on a library. The second is dropped because it disagrees
with the first, and the third asks for what the second asked for besides. -/
def echoing : Graph where
  packages := contested.packages
  modules := [
    { name := "App", dependencies := [
      .product 0 [⟨"Core", "LibCore"⟩],
      .product 1 [⟨"Core", "OtherCore"⟩, ⟨"Utils", "LibUtils"⟩],
      .product 2 [⟨"Utils", "LibUtils"⟩]] },
    { name := "Core", owner := 1 },
    { name := "Utils", owner := 1 }]
  products := contested.products

theorem screening_unalias_echoing : reportsOn echoing ⟨0, 1⟩ ≠ [] ∧
    survivors echoing 0 2 = [⟨"Utils", "LibUtils"⟩] ∧
    ∀ m i, survivors (echoing.unalias ⟨0, 1⟩) m i = survivors echoing m i := by
  have hdropped : reportsOn echoing ⟨0, 1⟩ ≠ [] := by decide +kernel
  obtain ⟨hiff, -⟩ := screening_unalias hdropped
  refine ⟨hdropped, by decide +kernel, (hiff.1 ?_).1⟩
  -- The second is the first to ask for `Utils` alone.
  intro k name v w hfirst hown hnext
  obtain ⟨rfl, -, hr⟩ := asked?_product_eq_some.1 hown
  have hrequests : effective [⟨"Core", "OtherCore"⟩, ⟨"Utils", "LibUtils"⟩] =
      [⟨"Core", "OtherCore"⟩, ⟨"Utils", "LibUtils"⟩] := by decide
  simp only [hrequests, List.mem_cons, AliasRequest.mk.injEq, List.not_mem_nil, or_false] at hr
  rcases hr with ⟨rfl, rfl⟩ | ⟨rfl, rfl⟩
  · have hcore : ((echoing.moduleAt 0).dependencies.take 1).findSome? (asked? echoing 1 "Core") =
        some "LibCore" := by decide +kernel
    cases hcore.symm.trans hfirst
  · have hutils : ((echoing.moduleAt 0).dependencies.drop 2).findSome?
        (asked? echoing 1 "Utils") = some "LibUtils" := by decide +kernel
    exact Option.some.inj (hutils.symm.trans hnext)

/-- The second dependency is dropped, and what it asked for still keeps the third from being taken
as it is without the aliases of the second. -/
theorem screening_unalias_contested : contested.Assembled ∧
    reportsOn contested ⟨0, 1⟩ =
      [.moduleAliasAmbiguous ["LibCore", "OtherCore"] "Core" "Lib" "lib"] ∧
    survivors contested 0 2 = [] ∧
    survivors (contested.unalias ⟨0, 1⟩) 0 2 = [⟨"Utils", "OtherUtils"⟩] ∧
    reportsOn contested ⟨0, 2⟩ =
      [.moduleAliasAmbiguous ["LibUtils", "OtherUtils"] "Utils" "Utils" "lib"] ∧
    reportsOn (contested.unalias ⟨0, 1⟩) ⟨0, 2⟩ = [] := by
  have happ := @Graph.Assembled.package _ _ "app" "" .current true .empty rfl
  have hlib := @Graph.Assembled.package _ _ "lib" "" .current false happ rfl
  have hroot := @Graph.Assembled.module _ _ 0 "App" .library {} hlib rfl
  have hcore := @Graph.Assembled.module _ _ 1 "Core" .library {} hroot rfl
  have hutils := @Graph.Assembled.module _ _ 1 "Utils" .library {} hcore rfl
  have hfirst := @Graph.Assembled.product _ _ 1 "Core" .automaticLibrary [1] hutils rfl
  have hsecond := @Graph.Assembled.product _ _ 1 "Lib" .automaticLibrary [1, 2] hfirst rfl
  have hthird := @Graph.Assembled.product _ _ 1 "Utils" .automaticLibrary [2] hsecond rfl
  have hasks := @Graph.Assembled.dependency _ _ 0 (.product 0 [⟨"Core", "LibCore"⟩]) hthird
    (by decide) rfl
  have hdisagrees := @Graph.Assembled.dependency _ _ 0
    (.product 1 [⟨"Core", "OtherCore"⟩, ⟨"Utils", "LibUtils"⟩]) hasks (by decide) rfl
  exact ⟨@Graph.Assembled.dependency _ _ 0 (.product 2 [⟨"Utils", "OtherUtils"⟩]) hdisagrees
    (by decide) rfl, by decide +kernel, by decide +kernel, by decide +kernel, by decide +kernel,
    by decide +kernel⟩

end BuildPlanner.Alias
