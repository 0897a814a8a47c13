import BuildPlanner.Proofs.Alias.Visible
import Mathlib.Data.List.Induction

/-!
What screening reports, and what survives it.

Screening goes through the dependencies once, and what it finds out about one of them is told by
those before it: the first that asks for a name says what it is replaced by, whether or not its own
requests survive (`Screening.lookup_claims`). So what is reported on a dependency and what survives
of it can be told without the screening (`reported`, `Screening.requests_ofList`).

A module asks clearly if the names it asks for are valid and all its dependencies on products of a
package agree on every name. This does not depend on the order of dependencies, and it is when
nothing is reported (`Screening.log_ofModule`). What modules see is then the same in any order.
-/

namespace BuildPlanner.Alias

variable {g : Graph}

/-! ### Definitions -/

/-- What requests ask to call modules of the given name. The first request for it counts that does
not replace it by itself. -/
def wanted? (requests : List AliasRequest) (name : String) : Option String :=
  (requests.find? fun r => r.name = name ∧ r.replacement ≠ name).map (·.replacement)

/-- What a dependency asks to call modules of package `k` of the given name. It counts only if it
asks for no invalid name. -/
def asked? (g : Graph) (k : PackageId) (name : String) : Dependency → Option String
  | .module _ => none
  | .product p requests =>
    if (g.productAt p).owner = k ∧ ∀ r ∈ requests, Name.isValid r.replacement = true then
      wanted? requests name
    else none

/-- The screening of dependencies of a module with the given name. -/
def Screening.ofList (g : Graph) (name : String) (ds : List Dependency) : Screening :=
  ds.zipIdx.foldl (Screening.add g name) {}

/-- What screening reports on a dependency behind others. -/
def reported (g : Graph) (requester : String) (before : List Dependency) :
    Dependency → List Diagnostic
  | .module _ => []
  | .product p requests =>
    if invalidNames requester requests ≠ [] then invalidNames requester requests
    else (effective requests).filterMap
      (clash? g (Screening.ofList g requester before).claims p)

/-- What `f` gives for the entry at a position behind those before it. -/
def atPosition {α β : Type} (f : List α → α → List β) (l : List α) (i : Nat) : List β :=
  match l[i]? with
  | none => []
  | some a => f (l.take i) a

/-- Two dependencies do not ask for different names for modules of one package. -/
def Agree (g : Graph) : Dependency → Dependency → Prop
  | .product p rs, .product q ss => (g.productAt p).owner = (g.productAt q).owner →
    ∀ r ∈ effective rs, ∀ s ∈ effective ss, r.name = s.name → r.replacement = s.replacement
  | _, _ => True

/-- Dependencies ask for valid names and agree with each other. -/
structure Clear (g : Graph) (ds : List Dependency) : Prop where
  valid : ∀ d ∈ ds, ∀ r ∈ d.aliases, Name.isValid r.replacement = true
  agree : ∀ d ∈ ds, ∀ d' ∈ ds, Agree g d d'

/-! ### Requests that count -/

lemma effective_append_singleton (rs : List AliasRequest) (r : AliasRequest) :
    effective (rs ++ [r]) =
      if r.name = r.replacement ∨ (effective rs).any (·.name = r.name) then effective rs
      else effective rs ++ [r] := by
  simp [effective, List.foldl_append]

lemma wanted?_append_singleton (rs : List AliasRequest) (r : AliasRequest) (name : String) :
    wanted? (rs ++ [r]) name = (wanted? rs name).or
      (if r.name = name ∧ r.replacement ≠ name then some r.replacement else none) := by
  rw [wanted?, wanted?, List.find?_append, Option.map_or, List.find?_singleton]
  by_cases h : r.name = name ∧ r.replacement ≠ name <;> simp [h]

lemma mem_effective {rs : List AliasRequest} {r : AliasRequest} :
    r ∈ effective rs ↔ wanted? rs r.name = some r.replacement := by
  induction rs using List.reverseRecOn generalizing r with
  | nil => simp [effective, wanted?]
  | append_singleton rs t ih =>
    have hany : (effective rs).any (·.name = t.name) = true ↔
        (wanted? rs t.name).isSome = true := by
      rw [List.any_eq_true, Option.isSome_iff_exists]
      refine ⟨?_, ?_⟩
      · rintro ⟨x, hx, hname⟩
        have hname : x.name = t.name := by simpa using hname
        exact ⟨x.replacement, hname ▸ ih.1 hx⟩
      · rintro ⟨v, hv⟩
        exact ⟨⟨t.name, v⟩, ih.2 hv, by simp⟩
    rw [effective_append_singleton, wanted?_append_singleton]
    by_cases hid : t.name = t.replacement
    · -- `t` keeps the name: it is no request.
      rw [if_pos (.inl hid), ih]
      grind
    · cases hold : wanted? rs t.name with
      -- The name is taken, by an earlier request.
      | some v =>
        rw [if_pos (.inr (hany.2 (by simp [hold]))), ih]
        grind
      -- `t` is the first request for its name.
      | none =>
        rw [if_neg (by simp [hid, hany, hold]), List.mem_append, List.mem_singleton, ih]
        obtain ⟨name, replacement⟩ := r
        obtain ⟨tname, treplacement⟩ := t
        grind

lemma effective_unique {rs : List AliasRequest} {r s : AliasRequest} (hr : r ∈ effective rs)
    (hs : s ∈ effective rs) (h : r.name = s.name) : r = s := by
  have hreplacement : some r.replacement = some s.replacement := by
    rw [← mem_effective.1 hr, h, mem_effective.1 hs]
  cases r
  cases s
  simp_all

lemma pairwise_effective (rs : List AliasRequest) :
    (effective rs).Pairwise fun r s => r.name ≠ s.name := by
  induction rs using List.reverseRecOn with
  | nil => exact .nil
  | append_singleton rs t ih =>
    rw [effective_append_singleton]
    split
    · exact ih
    · next hnew =>
      refine List.pairwise_append.2 ⟨ih, List.pairwise_singleton _ _, fun r hr s hs hname => ?_⟩
      rw [List.mem_singleton.1 hs] at hname
      exact hnew (.inr (by simpa using ⟨r, hr, hname⟩))

lemma mem_and_ne_of_mem_effective {rs : List AliasRequest} {r : AliasRequest}
    (h : r ∈ effective rs) : r ∈ rs ∧ r.replacement ≠ r.name := by
  obtain ⟨s, hs, hreplacement⟩ := Option.map_eq_some_iff.1 (mem_effective.1 h)
  have hcounts := List.find?_some hs
  simp only [decide_eq_true_eq] at hcounts
  obtain rfl : s = r := by
    cases s
    cases r
    simp_all
  exact ⟨List.mem_of_find?_eq_some hs, hcounts.2⟩

lemma asked?_product_eq_some {p : ProductId} {rs : List AliasRequest} {k : PackageId}
    {name v : String} : asked? g k name (.product p rs) = some v ↔
      (g.productAt p).owner = k ∧ (∀ r ∈ rs, Name.isValid r.replacement = true) ∧
        ⟨name, v⟩ ∈ effective rs := by
  rw [asked?, mem_effective, ← and_assoc]
  split
  · next h => exact (and_iff_right h).symm
  · next h => exact iff_of_false (by simp) fun h' => h h'.1

/-! ### Position by position -/

lemma mem_atPosition {α β : Type} {f : List α → α → List β} {l : List α} {i : Nat} {b : β} :
    b ∈ atPosition f l i ↔ ∃ a, l[i]? = some a ∧ b ∈ f (l.take i) a := by
  unfold atPosition
  split
  · next h => simp [h]
  · next h => simp [h]

lemma eq_flatMap_range {α β : Type} {F : List α → List β} {f : List α → α → List β}
    (hnil : F [] = []) (hsnoc : ∀ l a, F (l ++ [a]) = F l ++ f l a) (l : List α) :
    F l = (List.range l.length).flatMap (atPosition f l) := by
  induction l using List.reverseRecOn with
  | nil => exact hnil
  | append_singleton l a ih =>
    have hbefore : ∀ i ∈ List.range l.length, atPosition f l i = atPosition f (l ++ [a]) i := by
      intro i hi
      have hlt := List.mem_range.1 hi
      rw [atPosition, atPosition, List.getElem?_append_left hlt,
        List.take_append_of_le_length hlt.le]
    have hlast : atPosition f (l ++ [a]) l.length = f l a := by simp [atPosition]
    rw [hsnoc, ih, List.length_append, List.length_singleton, List.range_succ, List.flatMap_append,
      List.flatMap_singleton, hlast, List.flatMap_congr hbefore]

/-! ### Screening one dependency after the other -/

namespace Screening

lemma ofList_append_singleton (name : String) (ds : List Dependency) (d : Dependency) :
    ofList g name (ds ++ [d]) = (ofList g name ds).add g name (d, ds.length) := by
  simp [ofList, List.zipIdx_append]

variable {requester : String} {ds : List Dependency} {d : Dependency}

lemma invalidNames_eq_nil {requester : String} {rs : List AliasRequest} :
    invalidNames requester rs = [] ↔ ∀ r ∈ rs, Name.isValid r.replacement = true := by
  simp [invalidNames]

lemma lookup_map_eq_some {α κ β : Type} [BEq κ] [LawfulBEq κ] {l : List α} {f : α → κ} {w : α → β}
    (h : ∀ a ∈ l, ∀ b ∈ l, f a = f b → w a = w b) {k : κ} {v : β} :
    (l.map fun a => (f a, w a)).lookup k = some v ↔ ∃ a ∈ l, k = f a ∧ v = w a := by
  induction l with
  | nil => simp
  | cons a l ih =>
    have ih := ih fun x hx y hy => h x (by simp [hx]) y (by simp [hy])
    rw [List.map_cons, List.lookup_cons]
    by_cases hk : k = f a
    · have hbeq : (k == f a) = true := beq_iff_eq.2 hk
      simp only [hbeq, Option.some.injEq]
      refine ⟨fun hv => ⟨a, by simp, hk, hv.symm⟩, ?_⟩
      rintro ⟨b, hb, hkb, rfl⟩
      exact h a (by simp) b hb (hk.symm.trans hkb)
    · have hbeq : (k == f a) = false := beq_false_of_ne hk
      simp only [hbeq, ih, List.mem_cons, exists_eq_or_imp, hk, false_and, false_or]

lemma lookup_claims (requester : String) (ds : List Dependency) (k : PackageId) (name : String) :
    (ofList g requester ds).claims.lookup (k, name) = ds.findSome? (asked? g k name) := by
  induction ds using List.reverseRecOn with
  | nil => rfl
  | append_singleton ds d ih =>
    rw [ofList_append_singleton, List.findSome?_append, ← ih, List.findSome?_singleton]
    cases d with
    | module m => simp [add, asked?]
    | product p rs =>
      rw [add, examine]
      by_cases hvalid : invalidNames requester rs = []
      · -- The claims of valid requests come behind those from before.
        have hnew : ((effective rs).map fun r =>
            (((g.productAt p).owner, r.name), r.replacement)).lookup (k, name) =
              asked? g k name (.product p rs) := by
          refine Option.ext fun v => ?_
          rw [asked?_product_eq_some, and_iff_right (invalidNames_eq_nil.1 hvalid),
            lookup_map_eq_some (f := fun r : AliasRequest => ((g.productAt p).owner, r.name))
              (w := (·.replacement)) fun a ha b hb hab => by
                rw [effective_unique ha hb (Prod.mk.inj hab).2]]
          refine ⟨?_, ?_⟩
          · rintro ⟨r, hr, hkey, rfl⟩
            obtain ⟨rfl, rfl⟩ := Prod.mk.inj hkey
            exact ⟨rfl, hr⟩
          · rintro ⟨rfl, hr⟩
            exact ⟨_, hr, rfl, rfl⟩
        rw [if_neg (not_not.2 hvalid), List.lookup_append, hnew]
      · -- With an invalid request the dependency claims nothing.
        have hnone : asked? g k name (.product p rs) = none := by
          rw [asked?, if_neg fun h => hvalid (invalidNames_eq_nil.2 h.2)]
        rw [if_pos hvalid, hnone, Option.or_none]

lemma log_append_singleton : (ofList g requester (ds ++ [d])).log =
    (ofList g requester ds).log ++ reported g requester ds d := by
  rw [ofList_append_singleton]
  cases d with
  | module m => simp [add, reported]
  | product p rs =>
    rw [add, examine, reported]
    by_cases hvalid : invalidNames requester rs = []
    · rw [if_neg (not_not.2 hvalid), if_neg (not_not.2 hvalid)]
    · rw [if_pos hvalid, if_pos hvalid]

section Product

variable {p : ProductId} {rs : List AliasRequest}

lemma reported_of_valid (h : ∀ r ∈ rs, Name.isValid r.replacement = true) :
    reported g requester ds (.product p rs) =
      (effective rs).filterMap (clash? g (ofList g requester ds).claims p) :=
  if_neg (not_not.2 (invalidNames_eq_nil.2 h))

lemma reported_of_not_valid (h : ¬ ∀ r ∈ rs, Name.isValid r.replacement = true) :
    reported g requester ds (.product p rs) = invalidNames requester rs :=
  if_pos fun hnil => h (invalidNames_eq_nil.1 hnil)

lemma clash?_eq_some {r : AliasRequest} {x : Diagnostic} :
    clash? g (ofList g requester ds).claims p r = some x ↔
      ∃ v, ds.findSome? (asked? g (g.productAt p).owner r.name) = some v ∧ v ≠ r.replacement ∧
        x = .moduleAliasAmbiguous [v, r.replacement] r.name (g.productAt p).name
          (g.vendorOf p).display := by
  rw [clash?, lookup_claims]
  cases ds.findSome? (asked? g (g.productAt p).owner r.name) with
  | none => simp
  | some v =>
    by_cases hv : v = r.replacement
    · simp [hv]
    · simp [hv, eq_comm, Graph.vendorOf]

lemma mem_reported_of_valid (h : ∀ r ∈ rs, Name.isValid r.replacement = true) {x : Diagnostic} :
    x ∈ reported g requester ds (.product p rs) ↔
      ∃ name w, asked? g (g.productAt p).owner name (.product p rs) = some w ∧
        ∃ v, ds.findSome? (asked? g (g.productAt p).owner name) = some v ∧ v ≠ w ∧
          x = .moduleAliasAmbiguous [v, w] name (g.productAt p).name (g.vendorOf p).display := by
  simp only [reported_of_valid h, List.mem_filterMap, clash?_eq_some]
  refine ⟨?_, ?_⟩
  · rintro ⟨r, hr, hclash⟩
    exact ⟨r.name, r.replacement, asked?_product_eq_some.2 ⟨rfl, h, hr⟩, hclash⟩
  · rintro ⟨name, w, hw, hclash⟩
    exact ⟨⟨name, w⟩, (asked?_product_eq_some.1 hw).2.2, hclash⟩

end Product

/-- Nothing is reported on a dependency exactly if its names are valid and it asks for what the
first dependency asks for that asks for the same name. -/
lemma reported_eq_nil : reported g requester ds d = [] ↔
    (∀ r ∈ d.aliases, Name.isValid r.replacement = true) ∧
      ∀ k name v w, ds.findSome? (asked? g k name) = some v → asked? g k name d = some w →
        v = w := by
  cases d with
  | module m => simp [reported, asked?, Dependency.aliases]
  | product p rs =>
    rw [Dependency.aliases]
    by_cases hall : ∀ r ∈ rs, Name.isValid r.replacement = true
    · rw [and_iff_right hall, List.eq_nil_iff_forall_not_mem]
      simp only [mem_reported_of_valid hall]
      refine ⟨?_, ?_⟩
      · intro h k name v w hv hw
        obtain ⟨rfl, -⟩ := asked?_product_eq_some.1 hw
        by_contra hne
        exact h _ ⟨name, w, hw, v, hv, hne, rfl⟩
      · rintro h x ⟨name, w, hw, v, hv, hne, rfl⟩
        exact hne (h _ name v w hv hw)
    · rw [reported_of_not_valid hall]
      exact iff_of_false (fun hnil => hall (invalidNames_eq_nil.1 hnil)) fun h => hall h.1

/-! ### What survives -/

lemma surviving_append_singleton : (ofList g requester (ds ++ [d])).surviving =
    (ofList g requester ds).surviving ++
      if reported g requester ds d = [] ∧ effective d.aliases ≠ [] then
        [(ds.length, effective d.aliases)]
      else [] := by
  rw [ofList_append_singleton]
  cases d with
  | module m => simp [add, reported, Dependency.aliases, effective]
  | product p rs =>
    rw [add, examine, reported, Dependency.aliases]
    by_cases hvalid : invalidNames requester rs = []
    · rw [if_neg (not_not.2 hvalid), if_neg (not_not.2 hvalid)]
      dsimp only
      split <;> simp
    · rw [if_pos hvalid, if_pos hvalid, if_neg fun h => hvalid h.1, List.append_nil]

lemma mem_surviving {x : Nat × List AliasRequest} : x ∈ (ofList g requester ds).surviving ↔
    ∃ d, ds[x.1]? = some d ∧ reported g requester (ds.take x.1) d = [] ∧
      x.2 = effective d.aliases ∧ x.2 ≠ [] := by
  obtain ⟨i, kept⟩ := x
  rw [eq_flatMap_range (F := fun ds => (ofList g requester ds).surviving) rfl
    fun ds d => surviving_append_singleton]
  simp only [List.mem_flatMap, List.mem_range, mem_atPosition]
  refine ⟨?_, ?_⟩
  · rintro ⟨j, hj, d, hd, hx⟩
    split at hx
    · next h =>
      obtain ⟨rfl, rfl⟩ := Prod.mk.inj (List.mem_singleton.1 hx)
      rw [List.length_take_of_le hj.le]
      exact ⟨d, hd, h.1, rfl, h.2⟩
    · cases hx
  · rintro ⟨d, hd, hnone, rfl, hkept⟩
    have hi := (List.getElem?_eq_some_iff.1 hd).1
    refine ⟨i, hi, d, hd, ?_⟩
    rw [if_pos ⟨hnone, hkept⟩, List.length_take_of_le hi.le]
    exact List.mem_singleton.2 rfl

lemma requests_ofList (i : Nat) : (ofList g requester ds).requests i =
    match ds[i]? with
    | none => []
    | some d => if reported g requester (ds.take i) d = [] then effective d.aliases else [] := by
  have hlookup {kept : List AliasRequest} :
      (ofList g requester ds).surviving.lookup i = some kept ↔
        (i, kept) ∈ (ofList g requester ds).surviving := by
    have hmap := @lookup_map_eq_some _ _ _ _ _ (ofList g requester ds).surviving Prod.fst Prod.snd
      (fun x hx y hy hxy => by
        obtain ⟨d, hd, -, hx, -⟩ := mem_surviving.1 hx
        obtain ⟨d', hd', -, hy, -⟩ := mem_surviving.1 hy
        rw [hxy] at hd
        rw [hx, hy, Option.some.inj (hd.symm.trans hd')]) i kept
    simpa using hmap
  rw [requests]
  cases h : (ofList g requester ds).surviving.lookup i with
  | some kept =>
    obtain ⟨d, hd, hnone, hkept, -⟩ := mem_surviving.1 (hlookup.1 h)
    dsimp only at hd hnone hkept
    simp [hd, hnone, hkept]
  | none =>
    cases hd : ds[i]? with
    | none => rfl
    | some d =>
      -- Not stored, either because it is reported or because it asks for nothing.
      by_cases hnone : reported g requester (ds.take i) d = []
      · have hempty : effective d.aliases = [] := by
          by_contra hne
          cases h.symm.trans (hlookup.2 (mem_surviving.2 ⟨d, hd, hnone, rfl, hne⟩))
        simp [hnone, hempty]
      · simp [hnone]

end Screening

/-! ### Dependencies of a graph -/

def reportsOn (g : Graph) (e : Edge) : List Diagnostic :=
  atPosition (reported g (g.moduleAt e.consumer).name) (g.moduleAt e.consumer).dependencies e.order

lemma survivors_eq_ite (g : Graph) (m : ModuleId) (i : Nat) : survivors g m i =
    if reportsOn g ⟨m, i⟩ = [] then
      effective (((g.moduleAt m).dependencies[i]?.map Dependency.aliases).getD [])
    else [] := by
  have hrequests : survivors g m i = match (g.moduleAt m).dependencies[i]? with
      | none => []
      | some d =>
        if reported g (g.moduleAt m).name ((g.moduleAt m).dependencies.take i) d = [] then
          effective d.aliases
        else [] := Screening.requests_ofList i
  rw [hrequests, reportsOn, atPosition]
  cases (g.moduleAt m).dependencies[i]? <;> rfl

lemma nodup_survivors (m : ModuleId) (i : Nat) : (survivors g m i).Nodup := by
  rw [survivors_eq_ite]
  split
  · exact (pairwise_effective _).imp fun hne heq => hne (congrArg AliasRequest.name heq)
  · exact .nil

lemma isValid_of_mem_survivors {m : ModuleId} {i : Nat} {r : AliasRequest}
    (h : r ∈ survivors g m i) : Name.isValid r.replacement = true := by
  rw [survivors_eq_ite] at h
  split at h
  · next hnone =>
    rw [reportsOn, atPosition] at hnone
    cases hd : (g.moduleAt m).dependencies[i]? with
    | none => simp [hd, effective] at h
    | some d =>
      simp only [hd, Option.map_some, Option.getD_some] at h hnone
      exact (Screening.reported_eq_nil.1 hnone).1 r (mem_and_ne_of_mem_effective h).1
  · cases h

/-! ### Clear requests -/

lemma Agree.symm {d d' : Dependency} (h : Agree g d d') : Agree g d' d := by
  cases d <;> cases d' <;> try trivial
  intro howner r hr s hs hname
  exact (h howner.symm s hs r hr hname.symm).symm

lemma Agree.refl (d : Dependency) : Agree g d d := by
  cases d with
  | module => trivial
  | product p rs =>
    intro _ r hr s hs hname
    rw [effective_unique hr hs hname]

lemma clear_append_singleton {ds : List Dependency} {d : Dependency} :
    Clear g (ds ++ [d]) ↔ Clear g ds ∧ (∀ r ∈ d.aliases, Name.isValid r.replacement = true) ∧
      ∀ d' ∈ ds, Agree g d' d := by
  refine ⟨fun h => ⟨⟨fun x hx => ?_, fun x hx y hy => ?_⟩, ?_, fun x hx => ?_⟩, fun h => ⟨?_, ?_⟩⟩
  · exact h.valid x (by simp [hx])
  · exact h.agree x (by simp [hx]) y (by simp [hy])
  · exact h.valid d (by simp)
  · exact h.agree x (by simp [hx]) d (by simp)
  · obtain ⟨hclear, hvalid, -⟩ := h
    intro x hx
    rcases List.mem_append.1 hx with hx | hx
    · exact hclear.valid x hx
    · rw [List.mem_singleton.1 hx]
      exact hvalid
  · obtain ⟨hclear, -, hagree⟩ := h
    intro x hx y hy
    -- Agreement is symmetric, and `d` agrees with itself.
    rcases List.mem_append.1 hx with hx | hx <;> rcases List.mem_append.1 hy with hy | hy
    · exact hclear.agree x hx y hy
    · rw [List.mem_singleton.1 hy]
      exact hagree x hx
    · rw [List.mem_singleton.1 hx]
      exact (hagree y hy).symm
    · rw [List.mem_singleton.1 hx, List.mem_singleton.1 hy]
      exact .refl d

lemma agree_iff {d d' : Dependency} (h : ∀ r ∈ d.aliases, Name.isValid r.replacement = true)
    (h' : ∀ r ∈ d'.aliases, Name.isValid r.replacement = true) : Agree g d d' ↔
      ∀ k name v w, asked? g k name d = some v → asked? g k name d' = some w → v = w := by
  cases d with
  | module m => simp [Agree, asked?]
  | product p rs =>
    cases d' with
    | module m => simp [Agree, asked?]
    | product q ss =>
      refine ⟨?_, ?_⟩
      · intro hagree k name v w hv hw
        obtain ⟨rfl, -, hr⟩ := asked?_product_eq_some.1 hv
        obtain ⟨howner, -, hs⟩ := asked?_product_eq_some.1 hw
        exact hagree howner.symm _ hr _ hs rfl
      · intro hasked howner r hr s hs hname
        refine hasked _ r.name _ _ (asked?_product_eq_some.2 ⟨rfl, h, hr⟩) ?_
        rw [hname]
        exact asked?_product_eq_some.2 ⟨howner.symm, h', hs⟩

lemma exists_findSome?_asked? {ds : List Dependency} {d : Dependency} (hd : d ∈ ds) {k : PackageId}
    {name v : String} (hv : asked? g k name d = some v) :
    ∃ u, ds.findSome? (asked? g k name) = some u :=
  Option.isSome_iff_exists.1 (List.findSome?_isSome_iff.2 ⟨d, hd, Option.isSome_of_eq_some hv⟩)

namespace Screening

/-- **Screening reports nothing exactly if the requests are clear.** -/
theorem log_ofList (requester : String) (ds : List Dependency) :
    (ofList g requester ds).log = [] ↔ Clear g ds := by
  induction ds using List.reverseRecOn with
  | nil => exact iff_of_true rfl ⟨by simp, by simp⟩
  | append_singleton ds d ih =>
    rw [log_append_singleton, List.append_eq_nil_iff, ih, clear_append_singleton, reported_eq_nil]
    refine and_congr_right fun hclear => and_congr_right fun hvalid => ⟨?_, ?_⟩
    · intro hfirst d' hd'
      rw [agree_iff (hclear.valid d' hd') hvalid]
      intro k name v w hv hw
      -- The first that asks for the name asks for the same as `d'`, and as the last.
      obtain ⟨u, hu⟩ := exists_findSome?_asked? hd' hv
      obtain ⟨a, ha, hau⟩ := List.exists_of_findSome?_eq_some hu
      have hagree := hclear.agree a ha d' hd'
      rw [agree_iff (hclear.valid a ha) (hclear.valid d' hd')] at hagree
      rw [← hagree k name u v hau hv]
      exact hfirst k name u w hu hw
    · intro hagree k name v w hv hw
      obtain ⟨a, ha, hav⟩ := List.exists_of_findSome?_eq_some hv
      exact (agree_iff (hclear.valid a ha) hvalid).1 (hagree a ha) k name v w hav hw

lemma log_ofModule {m : Module} : (ofModule g m).log = [] ↔ Clear g m.dependencies :=
  log_ofList m.name m.dependencies

lemma requests_ofModule {m : Module} (h : Clear g m.dependencies) {i : Nat} {d : Dependency}
    (hd : m.dependencies[i]? = some d) : (ofModule g m).requests i = effective d.aliases := by
  have hlog : (ofList g m.name m.dependencies).log = [] := (log_ofList _ _).2 h
  have hnone : reported g m.name (m.dependencies.take i) d = [] := by
    rw [eq_flatMap_range (F := fun ds => (ofList g m.name ds).log) rfl
      fun _ _ => log_append_singleton, List.flatMap_eq_nil_iff] at hlog
    have hposition := hlog i (List.mem_range.2 (List.getElem?_eq_some_iff.1 hd).1)
    simpa [atPosition, hd] using hposition
  have hrequests : (ofModule g m).requests i = _ := @requests_ofList _ m.name _ i
  rw [hrequests, hd]
  exact if_pos hnone

end Screening

/-! ### What is seen where the requests are clear -/

/-- What is seen through a dependency all of whose requests that can have an effect survive. -/
def shown (g : Graph) : Dependency → Finset Sighting
  | .module n => visible g n
  | .product p rs => relabelled g (effective rs) (seenIn g p)

lemma survivors_eq (h : ∀ m ∈ g.modules, Clear g m.dependencies) {m : ModuleId} {i : Nat}
    {d : Dependency} (hd : (g.moduleAt m).dependencies[i]? = some d) :
    survivors g m i = effective d.aliases := by
  have hm := Graph.lt_length_of_mem_dependencies (List.mem_of_getElem? hd)
  exact Screening.requests_ofModule (h _ (Graph.moduleAt_mem hm)) hd

lemma brought_eq_shown (h : ∀ m ∈ g.modules, Clear g m.dependencies) {m : ModuleId} {i : Nat}
    {d : Dependency} (hd : (g.moduleAt m).dependencies[i]? = some d) :
    brought g (visible g) m (d, i) = shown g d := by
  cases d with
  | module n => rfl
  | product p rs =>
    rw [brought, survivors_eq h hd]
    rfl

/-- Where the requests are clear, what a module sees does not depend on the order of its
dependencies. -/
lemma mem_visible_iff_shown (hg : g.IsClosed) (hac : ¬ g.IsCyclic)
    (hclear : ∀ m ∈ g.modules, Clear g m.dependencies) {m : ModuleId} (hm : g.IsReached m)
    {s : Sighting} : s ∈ visible g m ↔
      s = ⟨m, (g.moduleAt m).name⟩ ∨ ∃ d ∈ (g.moduleAt m).dependencies, s ∈ shown g d := by
  rw [mem_visible_iff hg hac hm]
  refine or_congr_right ⟨?_, ?_⟩
  · rintro ⟨i, d, hd, hs⟩
    exact ⟨d, List.mem_of_getElem? hd, brought_eq_shown hclear hd ▸ hs⟩
  · rintro ⟨d, hd, hs⟩
    obtain ⟨i, hi⟩ := List.mem_iff_getElem?.1 hd
    exact ⟨i, d, hi, (brought_eq_shown hclear hi).symm ▸ hs⟩

end BuildPlanner.Alias
