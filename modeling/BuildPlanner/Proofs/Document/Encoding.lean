import BuildPlanner.Document.Basic
import BuildPlanner.Proofs.SortedMap
import BuildPlanner.Proofs.Version

/-!
Documents that have been written as keyed data are read back.

What has its default is not written, and what is not written is read as its default. So everything
comes back as it was, but for a version that is the same as the current one up to zeros at the
end, which comes back as the current one (`PackageEntry.restate`).
-/

namespace BuildPlanner

/-! ### Labels -/

lemma ModuleKind.ofLabel?_label (k : ModuleKind) : ofLabel? k.label = some k := by
  cases k <;> rfl

lemma ProductKind.ofLabel?_label (k : ProductKind) : ofLabel? k.label = some k := by
  cases k <;> rfl

lemma SourceKind.ofLabel?_label (k : SourceKind) : ofLabel? k.label = some k := by
  cases k <;> rfl

namespace Document

open Data

/-! ### Fields -/

namespace Data

@[simp] lemma lookup_fieldIf_append (present : Bool) (k key : String) (v : Data)
    (rest : List (String × Data)) :
    (fieldIf present k v ++ rest).lookup key =
      if key = k ∧ present then some v else rest.lookup key := by
  cases present with
  | false => simp [fieldIf]
  | true =>
    by_cases h : key = k
    · simp [fieldIf, h]
    · simp [fieldIf, List.lookup_cons, beq_false_of_ne h, h]

@[simp] lemma lookup_fieldIf (present : Bool) (k key : String) (v : Data) :
    (fieldIf present k v).lookup key = if key = k ∧ present then some v else none := by
  simpa using lookup_fieldIf_append present k key v []

lemma keys_fieldIf {present : Bool} {k : String} {v : Data} :
    ((fieldIf present k v).map (·.1)).Sublist [k] := by
  cases present <;> simp [fieldIf]

lemma fields?_eq_some {known : List String} {fields : List (String × Data)}
    (hkeys : (fields.map (·.1)).Sublist known) (hknown : known.Nodup) :
    (record fields).fields? known = some fields :=
  if_pos ⟨fun _ hf => hkeys.subset (List.mem_map_of_mem hf), hknown.sublist hkeys⟩

lemma optional_eq_some {α : Type} {key : String} {default a : α} {read : Data → Option α}
    {fields : List (String × Data)} (present : Bool) (v : Data)
    (hfields : fields.lookup key = if present then some v else none)
    (hread : present → read v = some a)
    (hdefault : present = false → default = a) : optional key default read fields = some a := by
  cases present with
  | false => simp [optional, hfields, hdefault rfl]
  | true => simp [optional, hfields, hread rfl]

lemma required_eq_some {α : Type} {key : String} {a : α} {read : Data → Option α}
    {fields : List (String × Data)} (v : Data) (hfields : fields.lookup key = some v)
    (hread : read v = some a) : required key read fields = some a := by
  simp [required, hfields, hread]

lemma list?_map_eq_some {α β : Type} {write : α → Data} {read : Data → Option β} {h : α → β}
    (l : List α) (hl : ∀ a ∈ l, read (write a) = some (h a)) :
    list? read (.list (l.map write)) = some (l.map h) :=
  Reading.mapM_map_eq_some hl

lemma list?_eq_some {α : Type} {write : α → Data} {read : Data → Option α}
    (l : List α) (hl : ∀ a, read (write a) = some a) :
    list? read (.list (l.map write)) = some l := by
  simpa using list?_map_eq_some (h := id) l fun a _ => hl a

end Data

/-! ### Entries -/

lemma ofList_entries (m : SortedMap String String) : SortedMap.ofList m.entries = m := by
  refine SortedMap.ext_get? fun k => ?_
  cases h : m.get? k with
  | none =>
    rw [SortedMap.get?_eq_none_iff] at h ⊢
    rwa [SortedMap.mem_keys_ofList]
  | some v =>
    have hk : k ∈ (SortedMap.ofList m.entries).keys := by
      rw [SortedMap.mem_keys_ofList]
      exact List.mem_map_of_mem (SortedMap.get?_eq_some_iff.1 h)
    obtain ⟨w, hw⟩ := SortedMap.mem_keys.1 hk
    have hvw : some v = some w := by
      rw [← h, SortedMap.get?_eq_some_iff.2 (SortedMap.mem_of_mem_ofList hw)]
    rw [hvw, SortedMap.get?_eq_some_iff]
    exact hw

lemma map?_entries (m : SortedMap String String) :
    map? text? (.record (m.entries.map fun a => (a.1, .text a.2))) = some m.entries := by
  have hread : (m.entries.map fun a => (a.1, Data.text a.2)).mapM
      (fun f => (text? f.2).map fun v => (f.1, v)) = some (m.entries.map id) :=
    Reading.mapM_map_eq_some fun _ _ => rfl
  rw [List.map_id] at hread
  have hkeys : ((m.entries.map fun a => (a.1, Data.text a.2)).map (·.1)).Nodup := by
    rw [List.map_map]
    exact m.nodup_keys
  exact (if_pos hkeys).trans hread

def DependencyEntry.fields (e : DependencyEntry) : List (String × Data) :=
  Data.fieldIf (e.module ≠ "") "module" (.text e.module) ++
  Data.fieldIf (e.product ≠ "") "product" (.text e.product) ++
  Data.fieldIf (e.package ≠ "") "package" (.text e.package) ++
  Data.fieldIf (!e.aliases.isEmpty) "aliases"
    (.record (e.aliases.entries.map fun a => (a.1, .text a.2)))

lemma DependencyEntry.decode?_encode (e : DependencyEntry) :
    DependencyEntry.decode? e.encode = some e := by
  have hkeys : (e.fields.map (·.1)).Sublist ["module", "product", "package", "aliases"] := by
    simp only [fields, List.map_append]
    exact ((keys_fieldIf.append keys_fieldIf).append keys_fieldIf).append keys_fieldIf
  have hknown : e.encode.fields? ["module", "product", "package", "aliases"] = some e.fields :=
    fields?_eq_some hkeys (by decide)
  have hmodule : optional "module" "" text? e.fields = some e.module :=
    optional_eq_some (e.module ≠ "") (.text e.module)
      (by simp [fields]) (fun _ => rfl) (by simp)
  have hproduct : optional "product" "" text? e.fields = some e.product :=
    optional_eq_some (e.product ≠ "") (.text e.product)
      (by simp [fields]) (fun _ => rfl) (by simp)
  have hpackage : optional "package" "" text? e.fields = some e.package :=
    optional_eq_some (e.package ≠ "") (.text e.package)
      (by simp [fields]) (fun _ => rfl) (by simp)
  have haliases : optional "aliases" [] (map? text?) e.fields = some e.aliases.entries :=
    optional_eq_some (!e.aliases.isEmpty) _
      (by simp [fields]) (fun _ => map?_entries _)
      (by simp [SortedMap.isEmpty])
  simp [DependencyEntry.decode?, hknown, hmodule, hproduct, hpackage, haliases, ofList_entries]

def ModuleEntry.fields (m : ModuleEntry) : List (String × Data) :=
  [("name", .text m.name)] ++
  Data.fieldIf (m.kind ≠ .library) "kind" (.text m.kind.label) ++
  Data.fieldIf (!m.sources.isEmpty) "sources" (.list (m.sources.map fun k => .text k.label)) ++
  Data.fieldIf (!m.dependencies.isEmpty) "dependencies"
    (.list (m.dependencies.map DependencyEntry.encode))

lemma ModuleEntry.decode?_encode (m : ModuleEntry) : ModuleEntry.decode? m.encode = some m := by
  have hkeys : (m.fields.map (·.1)).Sublist ["name", "kind", "sources", "dependencies"] := by
    simp only [fields, List.map_append]
    exact (((List.Sublist.refl _).append keys_fieldIf).append keys_fieldIf).append keys_fieldIf
  have hknown : m.encode.fields? ["name", "kind", "sources", "dependencies"] = some m.fields :=
    fields?_eq_some hkeys (by decide)
  have hname : required "name" text? m.fields = some m.name :=
    required_eq_some (.text m.name) (by simp [fields]) rfl
  have hkind : optional "kind" .library (fun v => v.text?.bind ModuleKind.ofLabel?) m.fields =
      some m.kind :=
    optional_eq_some (m.kind ≠ .library) (.text m.kind.label) (by simp [fields, List.lookup_cons])
      (fun _ => ModuleKind.ofLabel?_label m.kind) (by simpa using Eq.symm)
  have hlist : list? (fun v => v.text?.bind SourceKind.ofLabel?)
      (.list (m.sources.map fun k => Data.text k.label)) = some m.sources :=
    list?_eq_some m.sources SourceKind.ofLabel?_label
  have hsources : optional "sources" []
      (list? fun v => v.text?.bind SourceKind.ofLabel?) m.fields = some m.sources :=
    optional_eq_some (!m.sources.isEmpty) _ (by simp [fields, List.lookup_cons])
      (fun _ => hlist) (by simp)
  have hdependencies : optional "dependencies" [] (list? DependencyEntry.decode?) m.fields =
      some m.dependencies :=
    optional_eq_some (!m.dependencies.isEmpty) (.list (m.dependencies.map DependencyEntry.encode))
      (by simp [fields, List.lookup_cons])
      (fun _ => list?_eq_some m.dependencies DependencyEntry.decode?_encode) (by simp)
  simp [ModuleEntry.decode?, hknown, hname, hkind, hsources, hdependencies]

def ProductEntry.fields (q : ProductEntry) : List (String × Data) :=
  [("name", .text q.name)] ++
  Data.fieldIf (q.kind ≠ .automaticLibrary) "kind" (.text q.kind.label) ++
  [("modules", .list (q.modules.map .text))]

lemma ProductEntry.decode?_encode (q : ProductEntry) : ProductEntry.decode? q.encode = some q := by
  have hkeys : (q.fields.map (·.1)).Sublist ["name", "kind", "modules"] := by
    simp only [fields, List.map_append]
    exact ((List.Sublist.refl _).append keys_fieldIf).append (List.Sublist.refl _)
  have hknown : q.encode.fields? ["name", "kind", "modules"] = some q.fields :=
    fields?_eq_some hkeys (by decide)
  have hname : required "name" text? q.fields = some q.name :=
    required_eq_some (.text q.name) (by simp [fields]) rfl
  have hkind : optional "kind" .automaticLibrary (fun v => v.text?.bind ProductKind.ofLabel?)
      q.fields = some q.kind :=
    optional_eq_some (q.kind ≠ .automaticLibrary) (.text q.kind.label)
      (by simp [fields, List.lookup_cons]) (fun _ => ProductKind.ofLabel?_label q.kind)
      (by simpa using Eq.symm)
  have hmodules : required "modules" (list? text?) q.fields = some q.modules :=
    required_eq_some (.list (q.modules.map .text)) (by simp [fields, List.lookup_cons])
      (list?_eq_some q.modules fun _ => rfl)
  simp [ProductEntry.decode?, hknown, hname, hkind, hmodules]

/-! ### Packages -/

def PackageEntry.fields (p : PackageEntry) : List (String × Data) :=
  [("identity", .text p.identity)] ++
  Data.fieldIf (p.location ≠ "") "location" (.text p.location) ++
  Data.fieldIf (!p.tools.same .current) "tools-version" (.text p.tools.text) ++
  Data.fieldIf p.isRoot "root" (.flag p.isRoot) ++
  Data.fieldIf (!p.modules.isEmpty) "modules" (.list (p.modules.map ModuleEntry.encode)) ++
  Data.fieldIf (!p.products.isEmpty) "products" (.list (p.products.map ProductEntry.encode))

/-- The package with the spelling of its tools-version that is read back. -/
def PackageEntry.restate (p : PackageEntry) : PackageEntry :=
  { p with tools := if p.tools.same .current then .current else p.tools }

lemma PackageEntry.decode?_encode {p : PackageEntry} (hne : p.tools.components ≠ [])
    (hlength : p.tools.components.length ≤ 3) :
    PackageEntry.decode? p.encode = some p.restate := by
  have hkeys : (p.fields.map (·.1)).Sublist
      ["identity", "location", "tools-version", "root", "modules", "products"] := by
    simp only [fields, List.map_append]
    exact (((((List.Sublist.refl _).append keys_fieldIf).append keys_fieldIf).append
      keys_fieldIf).append keys_fieldIf).append keys_fieldIf
  have hknown : p.encode.fields?
      ["identity", "location", "tools-version", "root", "modules", "products"] = some p.fields :=
    fields?_eq_some hkeys (by decide)
  have hidentity : required "identity" text? p.fields = some p.identity :=
    required_eq_some (.text p.identity) (by simp [fields]) rfl
  have hlocation : optional "location" "" text? p.fields = some p.location :=
    optional_eq_some (p.location ≠ "") (.text p.location) (by simp [fields, List.lookup_cons])
      (fun _ => rfl) (by simp)
  have htools : optional "tools-version" .current (fun v => v.text?.bind Version.parse?) p.fields =
      some p.restate.tools :=
    optional_eq_some (!p.tools.same .current) (.text p.tools.text)
      (by simp [fields, List.lookup_cons])
      (fun h => by
        have hsame : p.tools.same .current = false := by simpa using h
        simpa [text?, restate, hsame] using Version.parse?_text hne hlength)
      (by simpa [restate] using fun h => by simp [h])
  have hroot : optional "root" false flag? p.fields = some p.isRoot :=
    optional_eq_some p.isRoot (.flag p.isRoot) (by simp [fields, List.lookup_cons])
      (fun _ => rfl) Eq.symm
  have hmodules : optional "modules" [] (list? ModuleEntry.decode?) p.fields = some p.modules :=
    optional_eq_some (!p.modules.isEmpty) (.list (p.modules.map ModuleEntry.encode))
      (by simp [fields, List.lookup_cons])
      (fun _ => list?_eq_some p.modules ModuleEntry.decode?_encode) (by simp)
  have hproducts : optional "products" [] (list? ProductEntry.decode?) p.fields =
      some p.products :=
    optional_eq_some (!p.products.isEmpty) (.list (p.products.map ProductEntry.encode))
      (by simp [fields, List.lookup_cons])
      (fun _ => list?_eq_some p.products ProductEntry.decode?_encode) (by simp)
  simp [PackageEntry.decode?, hknown, hidentity, hlocation, htools, hroot, hmodules, hproducts,
    restate]

/-! ### Documents -/

/-- All tools-versions have one to three components, as those that are read have. -/
def IsWritable (d : Document) : Prop :=
  ∀ p ∈ d.packages, p.tools.components ≠ [] ∧ p.tools.components.length ≤ 3

def restate (d : Document) : Document := ⟨d.packages.map PackageEntry.restate⟩

/-- **What has been written is read back, with the tools-versions restated.** -/
theorem decode?_encode {d : Document} (h : d.IsWritable) : decode? d.encode = some d.restate := by
  have hpackages : list? PackageEntry.decode? (.list (d.packages.map PackageEntry.encode)) =
      some d.restate.packages :=
    list?_map_eq_some d.packages fun p hp => PackageEntry.decode?_encode (h p hp).1 (h p hp).2
  have hknown : d.encode.fields? ["packages"] =
      some [("packages", .list (d.packages.map PackageEntry.encode))] := rfl
  have hread : required "packages" (list? PackageEntry.decode?)
      [("packages", .list (d.packages.map PackageEntry.encode))] = some d.restate.packages :=
    required_eq_some _ (by simp) hpackages
  simp [decode?, hknown, hread]

lemma tools_of_decode? {t : Data} {p : PackageEntry} (h : PackageEntry.decode? t = some p) :
    p.tools.components ≠ [] ∧ p.tools.components.length ≤ 3 := by
  simp only [PackageEntry.decode?, Option.bind_eq_bind, Option.bind_eq_some_iff] at h
  obtain ⟨fs, -, identity, -, location, -, tools, htools, root, -, ms, -, qs, -, hp⟩ := h
  obtain rfl := Option.some.inj hp
  unfold Data.optional at htools
  split at htools
  · obtain rfl := Option.some.inj htools
    have hcurrent : Version.current.components ≠ [] ∧ Version.current.components.length ≤ 3 := by
      decide
    exact hcurrent
  · obtain ⟨s, -, hs⟩ := Option.bind_eq_some_iff.1 htools
    exact Version.length_of_parse? hs

/-- **What has been read can be written.** -/
theorem isWritable_of_decode? {t : Data} {d : Document} (h : decode? t = some d) :
    d.IsWritable := by
  simp only [decode?, Option.bind_eq_bind, Option.bind_eq_some_iff] at h
  obtain ⟨fs, -, ps, hps, hd⟩ := h
  obtain rfl := Option.some.inj hd
  obtain ⟨v, -, hv⟩ := Option.bind_eq_some_iff.1 hps
  cases v with
  | list items =>
    intro p hp
    obtain ⟨item, -, hitem⟩ := Reading.exists_of_mem hv hp
    exact tools_of_decode? hitem
  | text s => cases hv
  | flag b => cases hv
  | record fields => cases hv

lemma PackageEntry.encode_restate (p : PackageEntry) : p.restate.encode = p.encode := by
  have htools : Data.fieldIf (!p.restate.tools.same .current) "tools-version"
      (.text p.restate.tools.text) =
      Data.fieldIf (!p.tools.same .current) "tools-version" (.text p.tools.text) := by
    cases h : p.tools.same .current with
    | false => simp [restate, h]
    | true => simp [restate, h, Version.same_refl, Data.fieldIf]
  unfold encode
  rw [htools]
  rfl

lemma encode_restate (d : Document) : d.restate.encode = d.encode := by
  simp [encode, restate, Function.comp_def, PackageEntry.encode_restate]

end Document

end BuildPlanner
