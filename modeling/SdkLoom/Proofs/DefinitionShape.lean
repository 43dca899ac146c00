import SdkLoom.Proofs.Catalog
import SdkLoom.Proofs.Classification

/-!
# The shape of definitions

Whatever a schema looks like, its definition is one level deep: the types have fields, and the descriptors of fields,
arguments and results have none. This keeps the definition of a recursive schema finite. All descriptors below the types are
made of references by one function, so they have their shape from it (`Index.describeRef_use`), wherever they stand.
-/

namespace SdkLoom

/-! ## Shapes of descriptors -/

/-- The descriptor of a whole type: it has the name of the type, no wrapper, and fields only if the type may have some and
does have some. -/
structure Descriptor.OfType (ty : Descriptor) (n : String) : Prop where
  name : ty.name = some n
  gqlType : ty.gqlType = n
  list : ty.list = false
  subRequired : ty.subRequired = false
  fields : ∀ fs, ty.fields = some fs → fs ≠ [] ∧ (ty.leaf = .object ∨ ty.leaf = .input ∨ ty.leaf = .unknown)

/-- The descriptor of a use of a type: it has no fields, and it marks items only if it is a list. -/
structure Descriptor.OfUse (ty : Descriptor) : Prop where
  fields : ty.fields = none
  subRequired : ty.subRequired = true → ty.list = true

/-- Uses of types, each under its name. -/
def Fields.OfUses (fs : Fields) : Prop := ∀ e ∈ fs, e.2.name = some e.1 ∧ e.2.OfUse

namespace Index

/-- References are described as uses, without a name. -/
theorem describeRef_use (idx : Index) (r : TypeRef) : (idx.describeRef r).name = none ∧ (idx.describeRef r).OfUse := by
  -- the induction is on the wrappers: a list makes a list, and a non-null mark changes neither of the flags
  fun_induction TypeRef.leaf r with
  | case1 _ inner ih => exact ⟨ih.1, ih.2.fields, ih.2.subRequired⟩
  | case2 _ item ih => exact ⟨ih.1, ih.2.fields, fun _ => rfl⟩
  | case3 r hnonNull hlist =>
    rw [describeRef_of_isLeaf idx (TypeRef.isLeaf_of_ne hnonNull hlist)]
    exact ⟨rfl, rfl, fun h => h⟩

theorem uses_inputMap (idx : Index) (vs : List InputValue) : Fields.OfUses (idx.inputMap vs) := by
  intro e he
  obtain ⟨v, -, rfl⟩ := List.mem_map.1 (OrderedMap.mem_of_mem_ofEntries he)
  have huse := (idx.describeRef_use v.type).2
  exact ⟨rfl, huse.fields, huse.subRequired⟩

theorem uses_describeRefs? (idx : Index) (refs : OrderedMap TypeRef) :
    Fields.OfUses ((idx.describeRefs? refs).getD []) := by
  rw [idx.describeRefs?_getD]
  intro e he
  obtain ⟨r, -, rfl⟩ := List.mem_map.1 he
  have huse := (idx.describeRef_use r.2).2
  exact ⟨rfl, huse.fields, huse.subRequired⟩

/-- A definition is described by its name, without wrappers. -/
theorem describeDef_plain (idx : Index) (t : TypeDef) :
    (idx.describeDef t).gqlType = t.name ∧ (idx.describeDef t).list = false ∧
      (idx.describeDef t).subRequired = false := by
  obtain ⟨kind, name, description, fields, inputFields, enumValues⟩ := t
  cases kind <;> exact ⟨rfl, rfl, rfl⟩

/-- Only what may have fields is described with some. -/
theorem leafOf_of_refs (idx : Index) {t : TypeDef} (h : t.refs ≠ []) (n : String) :
    idx.leafOf t.kind n = .object ∨ idx.leafOf t.kind n = .input ∨ idx.leafOf t.kind n = .unknown := by
  obtain ⟨kind, name, description, fields, inputFields, enumValues⟩ := t
  cases kind with
  | scalar => exact absurd rfl h
  | enum => exact absurd rfl h
  | object => exact .inl rfl
  | inputObject => exact .inr (.inl rfl)
  | _ => exact .inr (.inr rfl)

end Index

/-! ## Shapes of definitions -/

/-- The name of an input: something, and then `Input`. -/
def InputName (n : String) : Prop := ∃ stem, stem ≠ "" ∧ n = stem ++ "Input"

/-- The name of a meta type: two underscores, and then anything. -/
def MetaName (n : String) : Prop := ∃ rest, n = "__" ++ rest

/-- Exactly one of three statements holds. -/
def ExactlyOne (p q r : Prop) : Prop := (p ∧ ¬q ∧ ¬r) ∨ (¬p ∧ q ∧ ¬r) ∨ (¬p ∧ ¬q ∧ r)

/-- A schema defines a name if one of its definitions has it. -/
def Schema.Defines (s : Schema) (n : String) : Prop := ∃ t ∈ s.types, t.name = n

/-- The shape of the definition of a schema: which names it has, what its descriptors look like, and how its names are
classified. -/
structure Definition.WellShaped (s : Schema) (ignored : IgnoreList) (d : Definition) : Prop where
  names : ∀ n, d.model.types.contains n = true ↔ s.Defines n
  types : ∀ n ty, d.model.types.get? n = some ty → ty.OfType n ∧ Fields.OfUses (ty.fields.getD [])
  queries : ∀ e ∈ d.catalog.queries, Fields.OfUses e.2.args ∧ Fields.OfUses e.2.fields
  methods : ∀ e ∈ d.catalog.methods, Fields.OfUses e.2.args ∧ e.2.returnType.name = none ∧ e.2.returnType.OfUse
  inputs : ∀ n, d.model.inputs.contains n = true ↔ s.Defines n ∧ InputName n
  models : ∀ n, d.model.models.contains n = true ↔
    s.Defines n ∧ ¬InputName n ∧ ¬MetaName n ∧ ¬ignored.contains n = true
  required : ∀ n, d.required.contains n = true →
    ExactlyOne (n ∈ d.requiredModels) (n ∈ d.requiredInputs)
      (¬InputName n ∧ (ignored.contains n = true ∨ MetaName n))

/-- The index has the names that the schema defines. -/
theorem Schema.contains_index_iff (s : Schema) (n : String) : s.index.contains n = true ↔ s.Defines n := by
  rw [SortedMap.contains, s.index_get?, List.find?_isSome]
  simp [Schema.Defines]

namespace Definition

variable {s : Schema} {ignored : IgnoreList} {d : Definition}

/-- The types of a definition are described as their definitions are, apart from the flags of required types. -/
theorem exists_of_types_get? (h : ofSchema s ignored = .ok d) {n : String} {ty : Descriptor}
    (hty : d.model.types.get? n = some ty) :
    ∃ t required, s.index.get? n = some t ∧ ty = { (s.index.describeDef t).withName n with required } := by
  have hmarks := (marks h).types n
  rw [hty, Model.types_get?_ofIndex, Option.map_map] at hmarks
  obtain ⟨t, ht, rfl⟩ := Option.map_eq_some_iff.1 hmarks.symm
  exact ⟨t, _, ht, rfl⟩

/-- The types of a definition are described as whole types, and their fields as uses. -/
theorem shape_of_types_get? (h : ofSchema s ignored = .ok d) {n : String} {ty : Descriptor}
    (hty : d.model.types.get? n = some ty) : ty.OfType n ∧ Fields.OfUses (ty.fields.getD []) := by
  obtain ⟨t, ht, hleaf, hfields⟩ := types_get?_eq_some h hty
  obtain ⟨t', required, ht', rfl⟩ := exists_of_types_get? h hty
  rw [ht] at ht'
  cases ht'
  obtain ⟨hname, hlist, hsub⟩ := s.index.describeDef_plain t
  constructor
  · refine ⟨rfl, hname.trans (Schema.name_of_index_get? ht), hlist, hsub, ?_⟩
    intro fs hfs
    rw [hfields] at hfs
    have hrefs : t.refs ≠ [] := by
      intro hnil
      rw [(s.index.describeRefs?_eq_none_iff t.refs).2 hnil] at hfs
      cases hfs
    have hmap := s.index.describeRefs?_getD t.refs
    rw [hfs, Option.getD_some] at hmap
    rw [hleaf]
    refine ⟨?_, s.index.leafOf_of_refs hrefs n⟩
    intro hnil
    rw [hnil] at hmap
    exact hrefs (List.map_eq_nil_iff.1 hmap.symm)
  · rw [hfields]
    exact s.index.uses_describeRefs? t.refs

/-- The fields that a name has, whether it is a name of a type or not. -/
theorem uses_of_types (h : ofSchema s ignored = .ok d) (n : String) :
    Fields.OfUses (((d.model.types.get? n).bind Descriptor.fields).getD []) := by
  cases hty : d.model.types.get? n with
  | none => exact fun e he => absurd he List.not_mem_nil
  | some ty => exact (shape_of_types_get? h hty).2

/-- Arguments and result fields of a query entry are uses. -/
theorem shape_of_query (h : ofSchema s ignored = .ok d) {e : String × QueryEntry} (he : e ∈ d.catalog.queries) :
    Fields.OfUses e.2.args ∧ Fields.OfUses e.2.fields := by
  obtain ⟨fs, -, hcatalog, -, -⟩ := ofSchema_eq_ok h
  rw [hcatalog, Catalog.ofFields_eq] at he
  obtain ⟨f, -, rfl⟩ := List.mem_map.1 (OrderedMap.mem_of_mem_ofEntries he)
  refine ⟨s.index.uses_inputMap f.field.args, ?_⟩
  rw [RootField.queryEntry, ← fields_of_types h]
  exact uses_of_types h _

/-- Arguments of a method are uses, and so is its result, which has no name. -/
theorem shape_of_method (h : ofSchema s ignored = .ok d) {e : String × Method} (he : e ∈ d.catalog.methods) :
    Fields.OfUses e.2.args ∧ e.2.returnType.name = none ∧ e.2.returnType.OfUse := by
  obtain ⟨fs, -, hcatalog, -, -⟩ := ofSchema_eq_ok h
  rw [hcatalog] at he
  obtain ⟨f, -, rfl⟩ := Catalog.mem_methods_ofFields he
  exact ⟨s.index.uses_inputMap f.field.args, s.index.describeRef_use f.field.type⟩

theorem mem_requiredModels_iff (d : Definition) (n : String) :
    n ∈ d.requiredModels ↔ d.required.contains n = true ∧ d.model.models.contains n = true := by
  rw [requiredModels, List.mem_filter, SortedMap.mem_keys_iff]

theorem mem_requiredInputs_iff (d : Definition) (n : String) :
    n ∈ d.requiredInputs ↔ d.required.contains n = true ∧ d.model.inputs.contains n = true := by
  rw [requiredInputs, List.mem_filter, SortedMap.mem_keys_iff]

/-- Required names are names of the schema. -/
theorem defines_of_required (h : ofSchema s ignored = .ok d) {n : String} (hn : d.required.contains n = true) :
    s.Defines n := by
  have htypes := (((marks h).required n).1 hn).1
  rwa [Model.contains_types_ofIndex, s.contains_index_iff] at htypes

theorem contains_inputs_iff (h : ofSchema s ignored = .ok d) (n : String) :
    d.model.inputs.contains n = true ↔ s.Defines n ∧ InputName n := by
  rw [contains_inputs h, Bool.and_eq_true, s.contains_index_iff, Model.isInputName_iff, and_comm, InputName]

theorem contains_models_iff_defines (h : ofSchema s ignored = .ok d) (n : String) :
    d.model.models.contains n = true ↔ s.Defines n ∧ ¬InputName n ∧ ¬MetaName n ∧ ¬ignored.contains n = true := by
  rw [contains_models h, Bool.and_eq_true, s.contains_index_iff, Model.isModelName, InputName, MetaName,
    ← Model.isInputName_iff, ← Model.isMetaName_iff]
  simp only [Bool.and_eq_true, Bool.not_eq_true', Bool.not_eq_true]
  tauto

end Definition

/-- The definition of a schema has its shape: the names of the schema, descriptors that are one level deep and named after
their keys, and a class for every required name. -/
theorem definition_well_shaped (s : Schema) (ignored : IgnoreList) (d : Definition)
    (h : Definition.ofSchema s ignored = .ok d) : d.WellShaped s ignored where
  names n := by rw [Definition.contains_types h, s.contains_index_iff]
  types n ty hty := Definition.shape_of_types_get? h hty
  queries e he := Definition.shape_of_query h he
  methods e he := Definition.shape_of_method h he
  inputs := Definition.contains_inputs_iff h
  models := Definition.contains_models_iff_defines h
  required n hn := by
    have hdefines := Definition.defines_of_required h hn
    rw [d.mem_requiredModels_iff, d.mem_requiredInputs_iff, Definition.contains_inputs_iff h,
      Definition.contains_models_iff_defines h, ExactlyOne]
    -- a name that is no input is a model, or it is ignored or a meta name
    by_cases hinput : InputName n
    · exact .inr (.inl ⟨fun hm => hm.2.2.1 hinput, ⟨hn, hdefines, hinput⟩, fun hr => hr.1 hinput⟩)
    · tauto

/-- A schema with all classes of names: an operation takes an input and an input of a meta name, and the results are records,
which refer to themselves, a type whose name is nothing but the ending of inputs, and a type to ignore. -/
def archiveSchema : Schema where
  queryType := none
  mutationType := none
  subscriptionType := none
  types :=
    [⟨.object, "Query", none, some
        [⟨"records", none, [⟨"filter", none, .named .inputObject "RecordInput", none⟩,
            ⟨"since", none, .nonNull (.named .inputObject "__Stamp"), none⟩], .list (.nonNull (.named .object "Record"))⟩,
          ⟨"raw", none, [], .named .object "Input"⟩, ⟨"audits", none, [], .list (.list (.named .object "Audit"))⟩],
        none, none⟩,
      ⟨.object, "Record", none, some
        [⟨"next", none, [], .named .object "Record"⟩, ⟨"owner", none, [], .named .interface "Owner"⟩,
          ⟨"tags", none, [], .nonNull (.list (.nonNull (.named .scalar "String")))⟩], none, none⟩,
      ⟨.inputObject, "RecordInput", none, none, some [⟨"tag", none, .named .scalar "String", none⟩], none⟩,
      ⟨.inputObject, "__Stamp", none, none, some [], none⟩,
      ⟨.object, "Input", none, none, none, none⟩,
      ⟨.object, "Audit", none, some [⟨"record", none, [], .named .object "Record"⟩], none, none⟩,
      ⟨.interface, "Owner", none, some [⟨"name", none, [], .named .scalar "String"⟩], none, none⟩,
      ⟨.scalar, "String", none, none, none, none⟩]

/-- Of the required names of the archive two are models, one is an input, and two are neither. -/
theorem archive_well_shaped :
    ∃ d, Definition.ofSchema archiveSchema (NameSet.ofNames ["Audit"]) = .ok d ∧
      d.WellShaped archiveSchema (NameSet.ofNames ["Audit"]) ∧
      d.required.keys = ["Audit", "Input", "Record", "RecordInput", "__Stamp"] ∧
      d.requiredModels = ["Input", "Record"] ∧ d.requiredInputs = ["RecordInput"] := by
  refine ⟨_, rfl, definition_well_shaped _ _ _ rfl, ?_, ?_, ?_⟩
  · decide
  · decide
  · decide

end SdkLoom
