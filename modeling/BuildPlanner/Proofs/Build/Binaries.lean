import BuildPlanner.Proofs.Alias.Coherence
import BuildPlanner.Proofs.Build.Cycle
import BuildPlanner.Proofs.Build.Layout
import BuildPlanner.Proofs.Build.Path
import BuildPlanner.Proofs.Build.Reach
import BuildPlanner.Proofs.Graph.Ownership

/-!
Which builds of products have one binary.

The names of products are compared where reached modules depend on them, and not where they are
built, so builds of different products can have the same binary. The two builds of one product
never do: the mark of the host build shows behind the last slash, whatever the two systems add.
-/

namespace BuildPlanner.Build

open Alias (Excused IsConsumed resolve)
open Diagnostic (Engine)

variable {g : Graph} {target host : Parameters} {r : Alias.Resolution} {plan : Plan}

/-! ### Names of binaries -/

namespace Parameters

/-- What stands in front of a product's name in the name of its binary. -/
def lead (b : Parameters) : ProductKind → String
  | .staticLibrary => "lib"
  | .dynamicLibrary => b.dynamicPrefix
  | _ => ""

/-- What stands behind the last mention of a product's name in the name of its binary. -/
def ending (b : Parameters) : ProductKind → String
  | .executable | .tool | .codeMacro => b.executableExtension
  | .staticLibrary => b.staticExtension
  | .dynamicLibrary => b.dynamicExtension
  | .test =>
    match b.system with
    | .wasi => ".wasm"
    | .darwin => ""
    | .windows | .other => ".xctest"
  | .automaticLibrary | .plugin => ""

variable {b b' : Parameters} {name binary : String} {kind : ProductKind}

lemma slash_notMem_ending (b : Parameters) (kind : ProductKind) :
    '/' ∉ (b.ending kind).toList := by
  cases hs : b.system <;> cases kind <;>
    simp [ending, executableExtension, staticExtension, dynamicExtension, hs]

lemma testBinary_darwin (h : b.system = .darwin) :
    b.testBinary name = name ++ ".xctest/Contents/MacOS" ++ "/" ++ relative name := by
  have hbundle : appendPath (name ++ ".xctest") "Contents" = name ++ ".xctest/Contents" := by
    rw [appendPath_of_getLast? (c := 't') (by simp) (by decide)]
    simp [relative, String.append_assoc]
  have hfolder : appendPath (name ++ ".xctest/Contents") "MacOS" =
      name ++ ".xctest/Contents/MacOS" := by
    rw [appendPath_of_getLast? (c := 's') (by simp) (by decide)]
    simp [relative, String.append_assoc]
  rw [testBinary, h]
  dsimp only
  rw [hbundle, hfolder, appendPath_of_getLast? (c := 'S') (by simp) (by decide)]

lemma leaf_binaryName (h : b.binaryName name kind = .ok binary) :
    leaf binary = leaf (b.lead kind ++ name) ++ (b.ending kind).toList := by
  have hplain (front : String) : leaf (front ++ b.ending kind) =
      leaf front ++ (b.ending kind).toList := leaf_append (slash_notMem_ending b kind)
  cases kind with
  | automaticLibrary | plugin => cases h
  | executable | tool | codeMacro | staticLibrary | dynamicLibrary =>
    obtain rfl := Except.ok.inj h
    simpa [lead, ending] using hplain _
  | test =>
    obtain rfl := Except.ok.inj h
    cases hs : b.system with
    | darwin => simp [testBinary_darwin hs, leaf_append_slash, leaf_relative, lead, ending, hs]
    | wasi | windows | other => simpa [testBinary, lead, ending, hs] using hplain name

lemma getLast?_ending_ne (h : b.lead kind ≠ b'.lead kind) (front front' : List Char) :
    (front ++ (b.ending kind).toList).getLast? ≠ (front' ++ (b'.ending kind).toList).getLast? := by
  cases kind with
  | dynamicLibrary =>
    cases hs : b.system <;> cases hs' : b'.system <;>
      simp_all [lead, ending, dynamicPrefix, dynamicExtension]
  | _ => exact absurd rfl h

lemma mark_ending_ne (b b' : Parameters) (kind : ProductKind) :
    "-tool".toList ++ (b.ending kind).toList ≠ (b'.ending kind).toList := by
  cases hs : b.system <;> cases hs' : b'.system <;> cases kind <;>
    simp [ending, executableExtension, staticExtension, dynamicExtension, hs, hs']

lemma leaf_marked_ne (b b' : Parameters) (name : String) (kind : ProductKind) :
    leaf (b.lead kind ++ (name ++ "-tool")) ++ (b.ending kind).toList ≠
      leaf (b'.lead kind ++ name) ++ (b'.ending kind).toList := by
  intro heq
  -- Only dynamic libraries can begin differently, and then their last letters differ.
  by_cases hlead : b.lead kind = b'.lead kind
  · rw [← String.append_assoc, leaf_append (by decide), hlead, List.append_assoc] at heq
    exact mark_ending_ne b b' kind (List.append_cancel_left heq)
  · exact getLast?_ending_ne hlead _ _ (congrArg List.getLast? heq)

lemma exists_binaryName (h : kind.hasBinary = true) (b : Parameters) (name : String) :
    ∃ binary, b.binaryName name kind = .ok binary := by
  cases kind <;> first | exact ⟨_, rfl⟩ | cases h

end Parameters

/-! ### Builds of a layout -/

/-- What the binary of a product is called in its build directory. -/
def PlannedProduct.binary (p : PlannedProduct) : String :=
  ((p.parameters.binaryName p.buildName p.kind).toOption.map relative).getD ""

lemma ProductKey.eq_of_product_eq {k l : ProductKey} (hproduct : k.product = l.product)
    (hdest : k.destination = l.destination) : k = l := by
  cases k
  cases l
  simp_all

lemma mem_products_layoutOf (h : layoutOf g target host r = .ok (.planned plan))
    {p : PlannedProduct}
    (hp : p ∈ plan.products) : p.key ∈ linkedProducts g ∧
      p = planProduct g target host (linkedProducts g) p.key := by
  obtain ⟨ms, -, -, rfl⟩ := layoutOf_eq_planned_iff.1 h
  obtain ⟨k, hk, rfl⟩ := List.mem_map.1 hp
  exact ⟨hk, rfl⟩

lemma exists_binaryName_layoutOf (h : layoutOf g target host r = .ok (.planned plan))
    {p : PlannedProduct} (hp : p ∈ plan.products) :
    ∃ name, p.parameters.binaryName p.buildName p.kind = .ok name ∧ p.binary = relative name ∧
      p.binaryPath = .ok (p.parameters.buildPath ++ "/" ++ p.binary) := by
  obtain ⟨hlinked, hplanned⟩ := mem_products_layoutOf h hp
  have hkind : p.kind.hasBinary = true := by
    rw [hplanned]
    exact (List.mem_filter.1 hlinked).2
  obtain ⟨name, hname⟩ := Parameters.exists_binaryName hkind p.parameters p.buildName
  have hbinary : p.binary = relative name := by
    simp [PlannedProduct.binary, hname, Except.toOption]
  refine ⟨name, hname, hbinary, ?_⟩
  rw [PlannedProduct.binaryPath, Parameters.binaryPath, hname, hbinary, ← appendPath_buildPath]
  rfl

lemma leaf_binary_ne (h : layoutOf g target host r = .ok (.planned plan)) {p q : PlannedProduct}
    (hp : p ∈ plan.products) (hq : q ∈ plan.products) (hhost : p.key.destination = .host)
    (htarget : q.key.destination = .target) (hproduct : p.key.product = q.key.product) :
    leaf p.binary ≠ leaf q.binary := by
  obtain ⟨-, hplanned⟩ := mem_products_layoutOf h hp
  obtain ⟨hlinked, hplanned'⟩ := mem_products_layoutOf h hq
  have hkey : (⟨p.key.product, .target⟩ : ProductKey) = q.key := by rw [hproduct, ← htarget]
  have hmarked : p.buildName = (g.productAt p.key.product).name ++ "-tool" := by
    rw [hplanned]
    simp [planProduct, hhost, hkey, hlinked]
  have hplain : q.buildName = (g.productAt p.key.product).name := by
    rw [hplanned', hproduct]
    simp [planProduct, htarget]
  have hkind : p.kind = q.kind := by
    rw [hplanned, hplanned']
    simp [planProduct, hproduct]
  obtain ⟨name, hname, hbinary, -⟩ := exists_binaryName_layoutOf h hp
  obtain ⟨name', hname', hbinary', -⟩ := exists_binaryName_layoutOf h hq
  rw [hbinary, hbinary', leaf_relative, leaf_relative, Parameters.leaf_binaryName hname,
    Parameters.leaf_binaryName hname', hmarked, hplain, hkind]
  exact Parameters.leaf_marked_ne _ _ _ _

lemma binary_ne_of_product_eq (h : layoutOf g target host r = .ok (.planned plan))
    {p q : PlannedProduct} (hp : p ∈ plan.products) (hq : q ∈ plan.products)
    (hproduct : p.key.product = q.key.product) (hne : p.key ≠ q.key) :
    p.parameters.buildPath ++ "/" ++ p.binary ≠ q.parameters.buildPath ++ "/" ++ q.binary := by
  intro heq
  have hleaf := congrArg leaf heq
  rw [leaf_append_slash, leaf_append_slash] at hleaf
  have hdest : p.key.destination ≠ q.key.destination := fun hdest =>
    hne (ProductKey.eq_of_product_eq hproduct hdest)
  rcases Destination.eq_of_ne hdest with ⟨hhost, htarget⟩ | ⟨hhost, htarget⟩
  · exact leaf_binary_ne h hp hq hhost htarget hproduct hleaf
  · exact leaf_binary_ne h hq hp hhost htarget hproduct.symm hleaf.symm

/-! ### Products of equal name -/

lemma identity_vendorOf_ne (hg : g.Assembled) {p q : ProductId} (hp : p < g.products.length)
    (hq : q < g.products.length) (hne : p ≠ q)
    (hname : (g.productAt p).name = (g.productAt q).name) :
    (g.vendorOf p).identity ≠ (g.vendorOf q).identity := by
  intro hidentity
  have howner {p : ProductId} (hp : p < g.products.length) :
      (g.productAt p).owner < g.packages.length :=
    (hg.isClosed.2.2 _ (Graph.productAt_mem hp)).1
  have hsame := hg.isIdentified.eq_of_identity_eq (howner hp) (howner hq) hidentity
  exact hne (hg.isFiled.products.eq_of_name hp hq hsame hname)

/-- **Two builds have one binary exactly if they are builds of different products that are called
the same in one place.** Then their names can differ or not: a mark, the kinds and the systems can
make up for it, and builds for different destinations can have one build directory, or a name that
leads from one into the other. Products of one name come from different packages, and where
reached modules depend on both, some alias renames something behind one of that name. -/
theorem binaryPath_eq_iff (hg : g.Assembled) {engine : Engine} {a : Attempt}
    (h : create g target host engine = .ok a) (hplan : a.plan = some plan) {p q : PlannedProduct}
    (hp : p ∈ plan.products) (hq : q ∈ plan.products) (hne : p.key ≠ q.key) :
    ∃ s t, p.binaryPath = .ok s ∧ q.binaryPath = .ok t ∧
      (s = t ↔ p.key.product ≠ q.key.product ∧
        (p.parameters.buildPath = q.parameters.buildPath ∧ p.binary = q.binary ∨
          Within p.parameters.buildPath p.binary q.parameters.buildPath q.binary ∨
          Within q.parameters.buildPath q.binary p.parameters.buildPath p.binary)) ∧
      (p.key.product ≠ q.key.product →
        (g.productAt p.key.product).name = (g.productAt q.key.product).name →
          (g.vendorOf p.key.product).identity ≠ (g.vendorOf q.key.product).identity ∧
          (IsConsumed g p.key.product → IsConsumed g q.key.product →
            Excused g (g.productAt p.key.product).name)) := by
  obtain ⟨o, ho, herror, -, -, hlayout⟩ := create_eq_plan_iff.1 ⟨a, h, hplan⟩
  obtain ⟨-, -, -, hpath⟩ := exists_binaryName_layoutOf hlayout hp
  obtain ⟨-, -, -, hpath'⟩ := exists_binaryName_layoutOf hlayout hq
  refine ⟨_, _, hpath, hpath', ?_, fun hdiffers hname => ?_⟩
  · rw [← append_slash_eq_iff]
    refine ⟨fun heq => ⟨fun hproduct => ?_, heq⟩, And.right⟩
    exact binary_ne_of_product_eq hlayout hp hq hproduct hne heq
  -- A plan is only made where no error is reported, so products of one name were tolerated.
  · have hlt {p : PlannedProduct} (hp : p ∈ plan.products) : p.key.product < g.products.length :=
      Graph.mem_productKeys.1
        (List.mem_filter.1 (List.mem_filter.1 (mem_products_layoutOf hlayout hp).1).1).1
    have hvendors := identity_vendorOf_ne hg (hlt hp) (hlt hq) hdiffers hname
    have hcalm := fun d (hd : d ∈ o.log) => Engine.severity_ne_of_hadError herror hd
    have hcoherent := (Alias.coherent_iff hg.isClosed hg.isIdentified ho).1 hcalm
    refine ⟨hvendors, fun hconsumed hconsumed' => ?_⟩
    exact (hcoherent.tolerated _ _ hconsumed hconsumed' hname).resolve_left hvendors

/-- An application that uses static libraries of one name from two packages, and asks for the
module of one of them under another name. -/
def renamed : Graph where
  packages := [
    { identity := "app", display := "app", isRoot := true, modules := [0] },
    { identity := "left", display := "left", modules := [1], products := [0] },
    { identity := "right", display := "right", modules := [2], products := [1] }]
  modules := [
    { name := "App", dependencies := [.product 0 [⟨"Left", "Other"⟩], .product 1 []] },
    { name := "Left", owner := 1 },
    { name := "Right", owner := 2 }]
  products := [
    { name := "Utils", owner := 1, kind := .staticLibrary, modules := [1] },
    { name := "Utils", owner := 2, kind := .staticLibrary, modules := [2] }]

lemma assembled_renamed : renamed.Assembled := by
  have happ := @Graph.Assembled.package _ _ "app" "" .current true .empty rfl
  have hleft := @Graph.Assembled.package _ _ "left" "" .current false happ rfl
  have hright := @Graph.Assembled.package _ _ "right" "" .current false hleft rfl
  have hmodule := @Graph.Assembled.module _ _ 0 "App" .library {} hright rfl
  have hmodule := @Graph.Assembled.module _ _ 1 "Left" .library {} hmodule rfl
  have hmodule := @Graph.Assembled.module _ _ 2 "Right" .library {} hmodule rfl
  have hproduct := @Graph.Assembled.product _ _ 1 "Utils" .staticLibrary [1] hmodule rfl
  have hproduct := @Graph.Assembled.product _ _ 2 "Utils" .staticLibrary [2] hproduct rfl
  have hused := @Graph.Assembled.dependency _ _ 0 (.product 0 [⟨"Left", "Other"⟩]) hproduct
    (by decide) rfl
  exact @Graph.Assembled.dependency _ _ 0 (.product 1 []) hused (by decide) rfl

/-- The alias excuses the name of the products, and both have one binary. -/
theorem binaryPath_eq_iff_renamed : renamed.Assembled ∧ Excused renamed "Utils" ∧ ∃ a plan p q s,
    create renamed (.debug .target) (.debug .host) {} = .ok a ∧ a.plan = some plan ∧
      p ∈ plan.products ∧ q ∈ plan.products ∧ p.key = ⟨0, .target⟩ ∧ q.key = ⟨1, .target⟩ ∧
        p.binaryPath = .ok s ∧ q.binaryPath = .ok s := by
  obtain ⟨a, plan, hcreate, hplan, hpq⟩ : ∃ a plan, create renamed (.debug .target)
      (.debug .host) {} = .ok a ∧ a.plan = some plan ∧ _ :=
    exists_plan (fun plan => plan.products.any fun p => plan.products.any fun q =>
      p.key = ⟨0, .target⟩ && q.key = ⟨1, .target⟩ && p.binary = q.binary &&
        p.parameters.buildPath = q.parameters.buildPath) (by decide +kernel)
  simp only [List.any_eq_true, Bool.and_eq_true, decide_eq_true_eq] at hpq
  obtain ⟨p, hp, q, hq, ⟨⟨hpkey, hqkey⟩, hbinary⟩, hpath⟩ := hpq
  have hne : p.key ≠ q.key := by
    rw [hpkey, hqkey]
    decide
  obtain ⟨s, t, hs, ht, hiff, hexcused⟩ :=
    binaryPath_eq_iff assembled_renamed hcreate hplan hp hq hne
  rw [hpkey, hqkey] at hiff hexcused
  obtain rfl := hiff.2 ⟨by decide, .inl ⟨hpath, hbinary⟩⟩
  have hreached : renamed.IsReached 0 := Graph.isReached_root (by decide)
  have hconsumed : IsConsumed renamed 0 := ⟨0, hreached, _, List.mem_cons_self⟩
  have hconsumed' : IsConsumed renamed 1 :=
    ⟨0, hreached, _, List.mem_cons_of_mem _ List.mem_cons_self⟩
  exact ⟨assembled_renamed, (hexcused (by decide) rfl).2 hconsumed hconsumed', a, plan, p, q, s,
    hcreate, hplan, hp, hq, hpkey, hqkey, hs, ht⟩

/-- Two root packages that each have an executable of one name. -/
def twins : Graph where
  packages := [
    { identity := "a", display := "a", isRoot := true, modules := [0], products := [0] },
    { identity := "b", display := "b", isRoot := true, modules := [1], products := [1] }]
  modules := [
    { name := "Main", kind := .executable },
    { name := "Start", owner := 1, kind := .executable }]
  products := [
    { name := "App", kind := .executable, modules := [0] },
    { name := "App", owner := 1, kind := .executable, modules := [1] }]

/-- Nothing depends on the executables, so that nothing is reported, and both have one binary. -/
theorem binaryPath_root_taken : ∃ a plan p q s,
    create twins (.debug .target) (.debug .host) {} = .ok a ∧ a.plan = some plan ∧
      p ∈ plan.products ∧ q ∈ plan.products ∧ p.key = ⟨0, .target⟩ ∧ q.key = ⟨1, .target⟩ ∧
        p.binaryPath = .ok s ∧ q.binaryPath = .ok s := by
  obtain ⟨a, plan, hcreate, hplan, hpq⟩ : ∃ a plan, create twins (.debug .target)
      (.debug .host) {} = .ok a ∧ a.plan = some plan ∧ _ :=
    exists_plan (fun plan => plan.products.any fun p => plan.products.any fun q =>
      p.key = ⟨0, .target⟩ && q.key = ⟨1, .target⟩ && p.binaryPath.toOption.isSome &&
        p.binaryPath.toOption = q.binaryPath.toOption) (by decide +kernel)
  simp only [List.any_eq_true, Bool.and_eq_true, decide_eq_true_eq] at hpq
  obtain ⟨p, hp, q, hq, ⟨⟨hpkey, hqkey⟩, hsome⟩, hpath⟩ := hpq
  obtain ⟨s, hs⟩ := Option.isSome_iff_exists.1 hsome
  exact ⟨a, plan, p, q, s, hcreate, hplan, hp, hq, hpkey, hqkey, Fault.toOption_eq_some.1 hs,
    Fault.toOption_eq_some.1 (hpath ▸ hs)⟩

end BuildPlanner.Build
