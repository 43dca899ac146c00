import SdkLoom.Proofs.DocumentCoherence
import SdkLoom.Proofs.Essence
import SdkLoom.Proofs.GoReferences

/-!
# Types that nothing refers to

A type whose name no other part of a schema mentions (`Schema.Unmentioned`) may refer to all other types, but it leaves no
trace in the client. The index of the schema with that type agrees with the index of the schema everywhere else, and all
that is read of an index afterwards is read under mentioned names: by the references of definitions, by the root fields and
by what emitted types refer to. So the Go files stay the same (`unreferenced_type_adds_no_code`).
-/

namespace SdkLoom

/-! ## Indexes that agree but for one name -/

namespace Index

/-- Two indexes have the same definitions of all names but one. -/
def AgreeOff (name : String) (idx idx' : Index) : Prop := ∀ n, n ≠ name → idx'.get? n = idx.get? n

theorem AgreeOff.contains {name : String} {idx idx' : Index} (h : AgreeOff name idx idx') {n : String} (hn : n ≠ name) :
    idx'.contains n = idx.contains n := by
  rw [SortedMap.contains, h n hn, SortedMap.contains]

/-- An index that has the name has all names of the other one besides. -/
theorem AgreeOff.contains_iff {idx idx' : Index} {t : TypeDef} (h : AgreeOff t.name idx idx')
    (hmem : idx'.get? t.name = some t) (n : String) : idx'.contains n = true ↔ idx.contains n = true ∨ n = t.name := by
  by_cases hn : n = t.name
  · simp [SortedMap.contains, hn, hmem]
  · simp [h.contains hn, hn]

/-- Of the names that pass a test it has those of the other one, and the name if that passes. -/
theorem AgreeOff.and_contains_iff {idx idx' : Index} {t : TypeDef} (h : AgreeOff t.name idx idx')
    (hmem : idx'.get? t.name = some t) (p : String → Bool) (n : String) :
    p n = true ∧ idx'.contains n = true ↔ (p n = true ∧ idx.contains n = true) ∨ n = t.name ∧ p t.name = true := by
  rw [h.contains_iff hmem, and_or_left, and_comm (a := p n = true) (b := n = t.name)]
  refine or_congr_right (and_congr_right ?_)
  rintro rfl
  rfl

/-- A reference to another name is described alike. -/
theorem AgreeOff.describeRef {name : String} {idx idx' : Index} (h : AgreeOff name idx idx') {r : TypeRef}
    (hr : (idx.describeRef r).gqlType ≠ name) : idx'.describeRef r = idx.describeRef r := by
  rw [(idx.describeRef_core r).1] at hr
  apply describeRef_congr
  rw [enumValues, h _ hr, enumValues]

/-- Arguments are described alike where their references are. -/
theorem inputMap_congr {idx idx' : Index} {vs : List InputValue}
    (h : ∀ v ∈ vs, idx'.describeRef v.type = idx.describeRef v.type) : idx'.inputMap vs = idx.inputMap vs :=
  congrArg OrderedMap.ofEntries (List.map_congr_left fun v hv => by rw [h v hv])

/-- Fields are described alike where their references are. -/
theorem fieldMap_congr {idx idx' : Index} {fs : List FieldDef}
    (h : ∀ f ∈ fs, idx'.describeRef f.type = idx.describeRef f.type) : idx'.fieldMap fs = idx.fieldMap fs :=
  congrArg OrderedMap.ofEntries (List.map_congr_left fun f hf => by rw [h f hf])

/-- Only a list of fields that is there is described. -/
theorem describedFields?_congr {α : Type} {describe describe' : List α → Fields} {fs : Option (List α)}
    (h : describe' (fs.getD []) = describe (fs.getD [])) : describedFields? describe' fs = describedFields? describe fs := by
  match fs with
  | none => rfl
  | some [] => rfl
  | some (a :: l) => exact congrArg some h

/-- A definition is described alike where its references are. -/
theorem describeDef_congr {idx idx' : Index} {t : TypeDef}
    (h : ∀ r ∈ t.allRefs, idx'.describeRef r = idx.describeRef r) : idx'.describeDef t = idx.describeDef t := by
  have hfields : describedFields? idx'.fieldMap t.fields = describedFields? idx.fieldMap t.fields :=
    describedFields?_congr (fieldMap_congr fun f hf => h _ ((t.mem_allRefs_iff _).2 (.inl ⟨f, hf, .inl rfl⟩)))
  have hinputs : describedFields? idx'.inputMap t.inputFields = describedFields? idx.inputMap t.inputFields :=
    describedFields?_congr (inputMap_congr fun v hv => h _ ((t.mem_allRefs_iff _).2 (.inr ⟨v, hv, rfl⟩)))
  obtain ⟨kind, name, description, fields, inputFields, enumValues⟩ := t
  cases kind with
  | scalar => rfl
  | enum => rfl
  | object => exact congrArg (fun fs => { Descriptor.ofLeaf name .object with fields := fs }) hfields
  | inputObject => exact congrArg (fun fs => { Descriptor.ofLeaf name .input with fields := fs }) hinputs
  | _ => exact congrArg (fun fs => { Descriptor.ofLeaf name .unknown with fields := fs }) hfields

/-- A root of another name has the same fields. -/
theorem AgreeOff.rootFields {name : String} {idx idx' : Index} (h : AgreeOff name idx idx') (kind : OperationKind)
    {root : String} (hroot : root ≠ name) : idx'.rootFields kind root = idx.rootFields kind root := by
  rw [Index.rootFields, h root hroot, Index.rootFields]

end Index

/-! ## Names that a schema does not mention -/

/-- A schema does not mention a name: it has no definition of that name and no root of that name, and no reference of it is
described as a type of that name. -/
structure Schema.Unmentioned (s : Schema) (name : String) : Prop where
  undefined : ∀ u ∈ s.types, u.name ≠ name
  notQuery : s.queryRoot ≠ name
  notMutation : s.mutationType ≠ some name
  notReferred : ∀ u ∈ s.types, ∀ r ∈ u.allRefs, (s.index.describeRef r).gqlType ≠ name

instance (s : Schema) (name : String) : Decidable (s.Unmentioned name) :=
  decidable_of_iff ((∀ u ∈ s.types, u.name ≠ name) ∧ s.queryRoot ≠ name ∧ s.mutationType ≠ some name ∧
      ∀ u ∈ s.types, ∀ r ∈ u.allRefs, (s.index.describeRef r).gqlType ≠ name)
    ⟨fun ⟨h, hq, hm, hr⟩ => ⟨h, hq, hm, hr⟩, fun h => ⟨h.undefined, h.notQuery, h.notMutation, h.notReferred⟩⟩

namespace Schema.Unmentioned

variable {s : Schema} {t : TypeDef}

/-- The index of a schema with one more type has that type, and all else as before. -/
theorem index_get? {before after : List TypeDef} (h : s.Unmentioned t.name) (hs : s.types = before ++ after) (n : String) :
    (Schema.index { s with types := before ++ t :: after }).get? n = if n = t.name then some t else s.index.get? n := by
  rw [Schema.index_get?, Schema.index_get?, hs, List.reverse_append, List.reverse_cons, List.append_assoc,
    List.reverse_append, List.find?_append, List.find?_append, List.find?_append, List.find?_singleton]
  by_cases hn : n = t.name
  · -- after the type there is none of its name
    have hafter : after.reverse.find? (fun u => decide (u.name = t.name)) = none := by
      refine List.find?_eq_none.2 fun u hu => ?_
      have hmem : u ∈ s.types := by
        rw [hs]
        exact List.mem_append_right _ (List.mem_reverse.1 hu)
      simpa using h.undefined u hmem
    simp [hafter, hn]
  · simp [hn, Ne.symm hn]

/-- The index has no type of the name. -/
theorem not_contains {name : String} (h : s.Unmentioned name) : s.index.contains name = false := by
  rw [Bool.eq_false_iff]
  intro hc
  obtain ⟨u, hu⟩ := (s.index.contains_eq_true_iff _).1 hc
  exact h.undefined u (Schema.mem_types_of_index ((s.index.mem_values_iff u).2 ⟨_, hu⟩)) (Schema.name_of_index_get? hu)

/-- The schema with one more type has the same root fields. -/
theorem rootFields_eq {before after : List TypeDef} (h : s.Unmentioned t.name) (hs : s.types = before ++ after) :
    Schema.rootFields { s with types := before ++ t :: after } = s.rootFields := by
  have hoff : s.index.AgreeOff t.name (Schema.index { s with types := before ++ t :: after }) := by
    intro n hn
    rw [h.index_get? hs, if_neg hn]
  have hqueries := hoff.rootFields .query h.notQuery
  rw [Schema.queryRoot] at hqueries
  rw [Schema.rootFields, Schema.rootFields, hqueries]
  generalize Schema.index { s with types := before ++ t :: after } = idx' at hoff
  cases hm : s.mutationType with
  | none => rfl
  | some root =>
    have hroot : root ≠ t.name := by
      rintro rfl
      exact h.notMutation hm
    simp only [hoff.rootFields .mutation hroot]

/-- Every reference of a type that the index has is described as a type of another name. -/
theorem ref_ne {name : String} (h : s.Unmentioned name) {n : String} {u : TypeDef} (hu : s.index.get? n = some u)
    {r : TypeRef} (hr : r ∈ u.allRefs) : (s.index.describeRef r).gqlType ≠ name :=
  h.notReferred u (Schema.mem_types_of_index ((s.index.mem_values_iff u).2 ⟨n, hu⟩)) r hr

/-- The references of a root field are references of a type of the schema. -/
theorem rootRef_ne {name : String} (h : s.Unmentioned name) {fs : List RootField} (hfs : s.rootFields = .ok fs)
    {f : RootField} (hf : f ∈ fs) {r : TypeRef} (hr : f.field.type = r ∨ ∃ v ∈ f.field.args, v.type = r) :
    (s.index.describeRef r).gqlType ≠ name := by
  obtain ⟨u, hu, hfield⟩ := Schema.mem_rootFields hfs hf
  exact h.notReferred u (Schema.mem_types_of_index hu) r ((u.mem_allRefs_iff r).2 (.inl ⟨f.field, hfield, hr⟩))

/-- The catalog does not use the name. -/
theorem not_uses {name : String} (h : s.Unmentioned name) {fs : List RootField} (hfs : s.rootFields = .ok fs) (m : Model) :
    ¬ (Catalog.ofFields s.index m fs).Uses name := by
  rintro ⟨method, hmethod, ty, hty, -, hname⟩
  obtain ⟨e, he, rfl⟩ := List.mem_map.1 hmethod
  obtain ⟨f, hf, rfl⟩ := Catalog.mem_methods_ofFields he
  rcases List.mem_append.1 hty with hty | hty
  · obtain ⟨a, ha, rfl⟩ := List.mem_map.1 hty
    obtain ⟨v, hv, rfl⟩ := List.mem_map.1 (OrderedMap.mem_of_mem_ofEntries ha)
    exact h.rootRef_ne hfs hf (.inr ⟨v, hv, rfl⟩) hname
  · rw [List.mem_singleton.1 hty] at hname
    exact h.rootRef_ne hfs hf (.inl rfl) hname

end Schema.Unmentioned

/-! ## Definitions of the two schemas -/

/-- A definition has all that another one has and one more type: its operations and its required types are the same, and so
are all its other types. -/
structure Definition.Adds (d : Definition) (name : String) (d' : Definition) : Prop where
  catalog : d'.catalog = d.catalog
  required : d'.required = d.required
  types : ∀ n, n ≠ name → d'.model.types.get? n = d.model.types.get? n
  added : d.model.types.contains name = false ∧ d'.model.types.contains name = true
  ignored : d'.model.ignored = d.model.ignored
  models : ∀ n, d'.model.models.contains n = true ↔
    d.model.models.contains n = true ∨ n = name ∧ Model.isModelName d.model.ignored name = true
  inputs : ∀ n, d'.model.inputs.contains n = true ↔
    d.model.inputs.contains n = true ∨ n = name ∧ Model.isInputName name = true

section Added

variable {s : Schema} {idx' : Index} {t : TypeDef} (h : s.Unmentioned t.name) (hoff : s.index.AgreeOff t.name idx')
  (hmem : idx'.get? t.name = some t) {fs : List RootField} (hfs : s.rootFields = .ok fs) (ignored : IgnoreList)

include h hoff

/-- The models of the two indexes have the same types of all other names. -/
theorem Model.types_ofIndex_agree {n : String} (hn : n ≠ t.name) :
    (Model.ofIndex idx' ignored).types.get? n = (Model.ofIndex s.index ignored).types.get? n := by
  rw [Model.types_get?_ofIndex, Model.types_get?_ofIndex, hoff n hn]
  refine Option.map_congr fun u hu => ?_
  rw [Index.describeDef_congr fun r hr => hoff.describeRef (h.ref_ne hu hr)]

include hfs

/-- The root fields make the same operations with either index. -/
theorem Catalog.ofFields_agree : Catalog.ofFields idx' (Model.ofIndex idx' ignored) fs =
    Catalog.ofFields s.index (Model.ofIndex s.index ignored) fs := by
  have href : ∀ f ∈ fs, idx'.describeRef f.field.type = s.index.describeRef f.field.type := fun f hf =>
    hoff.describeRef (h.rootRef_ne hfs hf (.inl rfl))
  have hargs : ∀ f ∈ fs, idx'.inputMap f.field.args = s.index.inputMap f.field.args := fun f hf =>
    Index.inputMap_congr fun v hv => hoff.describeRef (h.rootRef_ne hfs hf (.inr ⟨v, hv, rfl⟩))
  have hqueries : (fs.map fun f => (f.field.name, f.queryEntry idx' (Model.ofIndex idx' ignored))) =
      fs.map fun f => (f.field.name, f.queryEntry s.index (Model.ofIndex s.index ignored)) := by
    refine List.map_congr_left fun f hf => ?_
    rw [RootField.queryEntry, hargs f hf, href f hf,
      Model.types_ofIndex_agree h hoff ignored (h.rootRef_ne hfs hf (.inl rfl)), RootField.queryEntry]
  have hmethods : (fs.map fun f => (f.field.name, f.method idx')) = fs.map fun f => (f.field.name, f.method s.index) := by
    refine List.map_congr_left fun f hf => ?_
    rw [RootField.method, hargs f hf, href f hf, RootField.method]
  rw [Catalog.ofFields_eq, Catalog.ofFields_eq, hqueries, hmethods]

include hmem

/-- The same types are required. -/
theorem Definition.required_ofFields_agree :
    (Definition.ofFields idx' ignored fs).required = (Definition.ofFields s.index ignored fs).required := by
  have hmarks := (Model.ofIndex s.index ignored).track_marks
    (Catalog.ofFields s.index (Model.ofIndex s.index ignored) fs)
  have hmarks' := (Model.ofIndex idx' ignored).track_marks (Catalog.ofFields idx' (Model.ofIndex idx' ignored) fs)
  apply NameSet.ext_contains
  intro n
  rw [Bool.eq_iff_iff, Definition.ofFields, Definition.ofFields, hmarks.required, hmarks'.required,
    Catalog.ofFields_agree h hoff hfs ignored, Model.contains_types_ofIndex, Model.contains_types_ofIndex,
    hoff.contains_iff hmem]
  constructor
  · rintro ⟨hn | rfl, huse⟩
    · exact ⟨hn, huse⟩
    · exact absurd huse (h.not_uses hfs _)
  · rintro ⟨hn, huse⟩
    exact ⟨.inl hn, huse⟩

/-- The definition of the index with the type adds that type. -/
theorem Definition.adds_ofFields :
    (Definition.ofFields s.index ignored fs).Adds t.name (Definition.ofFields idx' ignored fs) := by
  have hcatalog := Catalog.ofFields_agree h hoff hfs ignored
  have hrequired := Definition.required_ofFields_agree h hoff hmem hfs ignored
  have hmarks := (Model.ofIndex s.index ignored).track_marks
    (Catalog.ofFields s.index (Model.ofIndex s.index ignored) fs)
  have hmarks' := (Model.ofIndex idx' ignored).track_marks (Catalog.ofFields idx' (Model.ofIndex idx' ignored) fs)
  refine { catalog := hcatalog, required := hrequired, types := ?_, added := ?_, ignored := ?_, models := ?_, inputs := ?_ }
  · intro n hn
    have hflag : ((Model.ofIndex idx' ignored).track (Catalog.ofFields idx' (Model.ofIndex idx' ignored) fs)).required =
        ((Model.ofIndex s.index ignored).track (Catalog.ofFields s.index (Model.ofIndex s.index ignored) fs)).required :=
      hrequired
    rw [Definition.ofFields, Definition.ofFields, hmarks.types, hmarks'.types, hflag,
      Model.types_ofIndex_agree h hoff ignored hn]
  · rw [Definition.ofFields, Definition.ofFields, hmarks.contains, hmarks'.contains, Model.contains_types_ofIndex,
      Model.contains_types_ofIndex, hoff.contains_iff hmem]
    exact ⟨h.not_contains, .inr rfl⟩
  · rw [Definition.ofFields, Definition.ofFields, hmarks.ignored, hmarks'.ignored]
    rfl
  · intro n
    rw [Definition.ofFields, Definition.ofFields, hmarks.models, hmarks'.models, hmarks.ignored,
      Model.contains_models_ofIndex, Model.contains_models_ofIndex, Bool.and_eq_true, Bool.and_eq_true]
    exact hoff.and_contains_iff hmem _ n
  · intro n
    rw [Definition.ofFields, Definition.ofFields, hmarks.inputs, hmarks'.inputs, Model.contains_inputs_ofIndex,
      Model.contains_inputs_ofIndex, Bool.and_eq_true, Bool.and_eq_true]
    exact hoff.and_contains_iff hmem _ n

end Added

/-! ## Generated code -/

/-- No type of the definition of a schema refers to a name that the schema does not mention. -/
theorem Schema.Unmentioned.not_refers {s : Schema} {name : String} (h : s.Unmentioned name) {ignored : IgnoreList}
    {d : Definition} (hd : Definition.ofSchema s ignored = .ok d) (n : String) : ¬ d.model.Refers n name := by
  rintro ⟨ty, hty, hname⟩
  obtain ⟨u, hu, -, hfields⟩ := Definition.types_get?_eq_some hd hty
  obtain ⟨x, hx, rfl⟩ := List.mem_map.1 hname
  obtain ⟨e, he, rfl⟩ := List.mem_map.1 (List.mem_filter.1 hx).1
  rw [Descriptor.fieldList, hfields, s.index.describeRefs?_getD] at he
  obtain ⟨r, hr, rfl⟩ := List.mem_map.1 he
  refine h.ref_ne hu ((u.mem_allRefs_iff r.2).2 ?_) rfl
  rcases TypeDef.mem_of_mem_refs hr with ⟨f, hf, htype⟩ | ⟨v, hv, htype⟩
  · exact .inl ⟨f, hf, .inl htype⟩
  · exact .inr ⟨v, hv, htype⟩

/-- A type that no type refers to and that is not required adds nothing to the package of a client. -/
theorem Definition.Adds.package_eq {d d' : Definition} {name : String} (h : d.Adds name d')
    (hrequired : d.required.contains name = false) (hrefers : ∀ n, ¬ d.model.Refers n name) (ps : Primitives) :
    Go.Package.ofDefinition d' ps = Go.Package.ofDefinition d ps := by
  have hroots : ∀ n ∈ d.required.keys, d'.model.types.get? n = d.model.types.get? n := by
    intro n hn
    refine h.types n ?_
    rintro rfl
    rw [SortedMap.mem_keys_iff, hrequired] at hn
    cases hn
  have hrefs : ∀ a b, d.model.Reached d.required.keys a → d.model.Refers a b →
      d'.model.types.get? b = d.model.types.get? b := by
    intro a b _ hab
    refine h.types b ?_
    rintro rfl
    exact hrefers a hab
  have hemitted : d'.emitted = d.emitted := by
    apply NameSet.ext_contains
    intro n
    rw [Bool.eq_iff_iff, d'.emitted_iff, d.emitted_iff, h.required, Model.reached_congr hroots hrefs]
  refine Go.Package.ofDefinition_congr h.catalog hemitted ?_ ?_ ps
  · intro n hn
    exact ((d.emitted_iff n).1 hn).types_get? hroots hrefs
  · intro n hn
    obtain ⟨ty, hty, -⟩ := ((d.emitted_iff n).1 hn).declarable
    have hne : n ≠ name := by
      rintro rfl
      have hadded := h.added.1
      rw [SortedMap.contains, hty] at hadded
      cases hadded
    rw [Bool.eq_iff_iff, h.inputs]
    simp [hne]

/-- A type whose name a schema does not mention may be put anywhere among its types. The schema still has a definition if it
had one, and fails alike if not. The definition gains that type and nothing else: the operations, the required types and all
other types are the same, the name joins the models or the inputs if it is the name of one, and the files of the Go client
are the same. -/
theorem unreferenced_type_adds_no_code (s : Schema) (before after : List TypeDef) (t : TypeDef) (ignored : IgnoreList)
    (hs : s.types = before ++ after) (ht : s.Unmentioned t.name) :
    (∃ e, Definition.ofSchema s ignored = .error e ∧
      Definition.ofSchema { s with types := before ++ t :: after } ignored = .error e) ∨
    ∃ d d', Definition.ofSchema s ignored = .ok d ∧
      Definition.ofSchema { s with types := before ++ t :: after } ignored = .ok d' ∧ d.Adds t.name d' ∧
      ∀ (ps : Primitives) (module : String),
        (Go.Package.ofDefinition d' ps).files module = (Go.Package.ofDefinition d ps).files module := by
  have hget := ht.index_get? hs
  have hroots := ht.rootFields_eq hs
  cases hfs : s.rootFields with
  | error e =>
    refine .inl ⟨e, ?_, ?_⟩
    · rw [Definition.ofSchema_eq, hfs, Except.map]
    · rw [Definition.ofSchema_eq, hroots, hfs, Except.map]
  | ok fs =>
    have hd : Definition.ofSchema s ignored = .ok (Definition.ofFields s.index ignored fs) := by
      rw [Definition.ofSchema_eq, hfs, Except.map]
    have hadds := Definition.adds_ofFields ht (fun n hn => by rw [hget, if_neg hn]) (by rw [hget, if_pos rfl]) hfs ignored
    have hrequired : (Definition.ofFields s.index ignored fs).required.contains t.name = false := by
      rw [Bool.eq_false_iff]
      intro hc
      exact ht.not_uses hfs _ ((((Model.ofIndex s.index ignored).track_marks _).required _).1 hc).2
    refine .inr ⟨_, _, hd, ?_, hadds, fun ps module => ?_⟩
    · rw [Definition.ofSchema_eq, hroots, hfs, Except.map]
    · rw [hadds.package_eq hrequired (ht.not_refers hd) ps]

/-- A record of what was done to the books: it refers to the books, to the input of an operation, and to the query root, which
no operation returns. -/
def auditType : TypeDef :=
  ⟨.object, "Audit", none, some
    [⟨"books", none, [], .list (.named .object "Book")⟩, ⟨"source", none, [], .named .object "Query"⟩,
      ⟨"filter", none, [], .named .inputObject "BookInput"⟩], none, none⟩

/-- The library with the record among its types. -/
def auditedSchema : Schema :=
  { librarySchema with types := librarySchema.types.take 2 ++ auditType :: librarySchema.types.drop 2 }

/-- The record is a type and a model of the definition, but nothing of it is in the client. -/
theorem audit_adds_no_code :
    librarySchema.Unmentioned auditType.name ∧
      ∃ d d', Definition.ofSchema librarySchema ∅ = .ok d ∧
        Definition.ofSchema auditedSchema ∅ = .ok d' ∧
        d'.model.types.keys = ["Audit", "Author", "Book", "BookInput", "Genre", "Int", "Query"] ∧
        d'.model.models.keys = ["Audit", "Author", "Book", "Genre", "Int", "Query"] ∧
        d.Adds "Audit" d' ∧
        ∀ ps, (Go.Package.ofDefinition d' ps).files "library" = (Go.Package.ofDefinition d ps).files "library" := by
  have hname : librarySchema.Unmentioned auditType.name := by decide
  refine ⟨hname, ?_⟩
  rcases unreferenced_type_adds_no_code librarySchema (librarySchema.types.take 2) (librarySchema.types.drop 2) auditType ∅
    rfl hname with ⟨e, he, -⟩ | ⟨d, d', hd, hd', hadds, hfiles⟩
  · cases he
  · have hkeys : d'.model.types.keys = ["Audit", "Author", "Book", "BookInput", "Genre", "Int", "Query"] ∧
        d'.model.models.keys = ["Audit", "Author", "Book", "Genre", "Int", "Query"] := by
      cases hd'
      decide
    exact ⟨d, d', hd, hd', hkeys.1, hkeys.2, hadds, fun ps => hfiles ps _⟩

end SdkLoom
