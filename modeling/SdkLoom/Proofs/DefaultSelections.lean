import SdkLoom.Proofs.TypesImport

/-!
# Default selections

A result is selected from by its scalar fields unless the caller says otherwise. These are fields of the type that the schema
gives to the operation, in the order in which the type declares them (`Definition.scalarFields_eq`). Their arguments are not
looked at, so a default selection can be sent as it stands exactly if no scalar field of that type needs an argument
(`default_selection_bare_iff`).
-/

namespace SdkLoom

/-! ## Fields of definitions -/

/-- The fields that a definition is described with; the input fields of an input are fields without arguments. -/
def TypeDef.members (t : TypeDef) : List FieldDef :=
  match t.kind with
  | .scalar => []
  | .enum => []
  | .inputObject => (t.inputFields.getD []).map fun v => ⟨v.name, v.description, [], v.type⟩
  | _ => t.fields.getD []

theorem TypeDef.refs_eq (t : TypeDef) : t.refs = OrderedMap.ofEntries (t.members.map fun f => (f.name, f.type)) := by
  obtain ⟨kind, name, description, fields, inputFields, enumValues⟩ := t
  cases kind with
  | inputObject => simp [TypeDef.refs, TypeDef.members, Function.comp_def]
  | _ => rfl

/-- Every field that a definition is described with is one of its fields, or it is made of an input field. -/
theorem TypeDef.mem_members {t : TypeDef} {f : FieldDef} (h : f ∈ t.members) :
    f ∈ t.fields.getD [] ∨ ∃ v ∈ t.inputFields.getD [], v.name = f.name ∧ v.type = f.type := by
  obtain ⟨kind, name, description, fields, inputFields, enumValues⟩ := t
  cases kind with
  | scalar => exact absurd h List.not_mem_nil
  | enum => exact absurd h List.not_mem_nil
  | inputObject =>
    obtain ⟨v, hv, rfl⟩ := List.mem_map.1 h
    exact .inr ⟨v, hv, rfl, rfl⟩
  | _ => exact .inl h

theorem lastField?_eq_some {fs : List FieldDef} {n : String} {f : FieldDef} (h : lastField? fs n = some f) :
    f ∈ fs ∧ f.name = n := by
  refine ⟨List.mem_reverse.1 (List.mem_of_find?_eq_some h), ?_⟩
  simpa using List.find?_some h

/-- The names of a definition's references are those of its fields, in the order in which they are first declared. -/
theorem TypeDef.keys_refs (t : TypeDef) : OrderedMap.keys t.refs = (t.members.map FieldDef.name).eraseDups := by
  rw [t.refs_eq, OrderedMap.keys_ofEntries, List.map_map]
  rfl

/-- Under the name of a field a definition has the type of its last field of that name. -/
theorem TypeDef.get?_refs (t : TypeDef) (n : String) :
    OrderedMap.get? t.refs n = (lastField? t.members n).map FieldDef.type := by
  rw [t.refs_eq, OrderedMap.get?_ofEntries, ← List.map_reverse, List.find?_map, Option.map_map, lastField?]
  rfl

/-- A field has a scalar type: a scalar is defined under the name inside of all wrappers. -/
def FieldDef.HasScalarType (s : Schema) (f : FieldDef) : Prop :=
  (f.type.leaf.name.bind s.index.get?).map TypeDef.kind = some .scalar

/-- A field can be selected without arguments: each of its arguments may be null or has a default. -/
def FieldDef.Bare (f : FieldDef) : Prop := ∀ v ∈ f.args, v.type.marked = true → v.defaultValue.isSome = true

instance (s : Schema) (f : FieldDef) : Decidable (f.HasScalarType s) := inferInstanceAs (Decidable (_ = _))

instance (f : FieldDef) : Decidable f.Bare :=
  inferInstanceAs (Decidable (∀ v ∈ f.args, v.type.marked = true → v.defaultValue.isSome = true))

/-- In a coherent schema the kind of a reference tells whether a field has a scalar type. -/
theorem Schema.Coherent.hasScalarType_iff {s : Schema} (hs : s.Coherent) {t : TypeDef} (ht : t ∈ s.index.values)
    {f : FieldDef} (hf : f ∈ t.members) : f.HasScalarType s ↔ f.type.leaf.kind = .scalar := by
  have hcoherent : f.type.Coherent s.index := by
    rcases TypeDef.mem_members hf with hf | ⟨v, hv, -, htype⟩
    · exact hs.fields t ht f hf
    · rw [← htype]
      exact hs.inputFields t ht v hv
  rw [TypeRef.Coherent] at hcoherent
  rw [FieldDef.HasScalarType, hcoherent, Option.some.injEq]

/-! ## Results of operations -/

/-- The definition of what the operation of a name returns: that of the name inside of the type of its last root field. -/
def Schema.resultOf? (s : Schema) (operation : String) : Option TypeDef :=
  (lastField? (s.queryFields ++ s.mutationFields) operation).bind fun f => f.type.leaf.name.bind s.index.get?

namespace Definition

section Results

variable {s : Schema} {ignored : IgnoreList} {d : Definition} {op : Operation} {t : TypeDef}

/-- A coherent schema defines what an operation returns, and the operation describes its result as the definition says. -/
theorem exists_resultOf (hs : s.Coherent) (hd : ofSchema s ignored = .ok d) (hop : op ∈ d.catalog.operations) :
    ∃ t, s.resultOf? op.query.name = some t ∧ s.index.get? op.method.returnType.gqlType = some t ∧
      op.method.returnType.leaf = s.index.leafOf t.kind op.method.returnType.gqlType := by
  obtain ⟨r, hlast, -, hmethod⟩ := lastField_of_mem_operations hd hop
  obtain ⟨u, hu, hf⟩ := Schema.exists_of_mem_fields (lastField?_eq_some hlast).1
  obtain ⟨n, t, hn, ht, hkind⟩ := (TypeRef.coherent_iff _ _).1 (hs.fields u hu _ hf)
  obtain ⟨hname, hleaf, -⟩ := s.index.describeRef_core r.field.type
  rw [hn, Option.getD_some] at hname hleaf
  have hreturn : op.method.returnType = s.index.describeRef r.field.type := by rw [hmethod]; rfl
  rw [hreturn, hname, hleaf, ← hkind]
  refine ⟨t, ?_, ht, rfl⟩
  rw [Schema.resultOf?, hlast, Option.bind_some, hn, Option.bind_some, ht]

/-- A result has the fields of the type that the definition has under its name. -/
theorem query_fields (hd : ofSchema s ignored = .ok d) (hop : op ∈ d.catalog.operations) {ty : Descriptor}
    (hty : d.model.types.get? op.method.returnType.gqlType = some ty) : op.query.fields = ty.fieldList := by
  obtain ⟨r, -, hquery, hmethod⟩ := lastField_of_mem_operations hd hop
  have hreturn : op.method.returnType = s.index.describeRef r.field.type := by rw [hmethod]; rfl
  rw [hquery, RootField.queryEntry, ← fields_of_types hd, ← hreturn, hty, Option.bind_some, Descriptor.fieldList]

/-- The fields of a type are described from the references of its definition. -/
theorem fieldList_eq (hd : ofSchema s ignored = .ok d) {n : String} {ty : Descriptor}
    (hty : d.model.types.get? n = some ty) (ht : s.index.get? n = some t) :
    ty.fieldList = List.map (fun e => (e.1, (s.index.describeRef e.2).withName e.1)) t.refs := by
  obtain ⟨u, hu, -, hfields⟩ := types_get?_eq_some hd hty
  rw [ht] at hu
  cases hu
  rw [Descriptor.fieldList, hfields, s.index.describeRefs?_getD]

/-- The scalar fields of a result are the names that its definition declares, in the order in which it does so first, whose
last declaration is of a scalar kind. -/
theorem scalarFields_eq (hd : ofSchema s ignored = .ok d) (hop : op ∈ d.catalog.operations)
    (ht : s.index.get? op.method.returnType.gqlType = some t) :
    op.scalarFields = (t.members.map FieldDef.name).eraseDups.filter fun n =>
      (lastField? t.members n).any fun f => decide (f.type.leaf.kind = .scalar) := by
  obtain ⟨ty, hty⟩ := types_get?_of_index hd ht
  rw [Operation.scalarFields, query_fields hd hop hty, fieldList_eq hd hty ht, ← t.keys_refs, OrderedMap.keys,
    List.filter_map, List.filter_map, List.map_map]
  refine congrArg (List.map Prod.fst) (List.filter_congr fun e he => ?_)
  -- a reference is primitive if it is of a scalar kind, and it is the type of the last field of its name
  have hget := OrderedMap.get?_of_mem t.distinct_refs he
  rw [t.get?_refs] at hget
  obtain ⟨f, hf, htype⟩ := Option.map_eq_some_iff.1 hget
  rw [Function.comp_apply, Function.comp_apply, hf, Option.any_some, htype]
  exact Index.isPrimitive_of_leaf (s.index.describeRef_core e.2).2.1

/-- The scalar fields of a result are the fields of its definition that have a scalar type. -/
theorem mem_scalarFields_iff (hs : s.Coherent) (hd : ofSchema s ignored = .ok d) (hop : op ∈ d.catalog.operations)
    (ht : s.index.get? op.method.returnType.gqlType = some t) (n : String) :
    n ∈ op.scalarFields ↔ ∃ f, lastField? t.members n = some f ∧ f.HasScalarType s := by
  have hvalue : t ∈ s.index.values := (s.index.mem_values_iff t).2 ⟨_, ht⟩
  rw [scalarFields_eq hd hop ht, List.mem_filter, List.mem_eraseDups, Option.any_eq_true]
  constructor
  · rintro ⟨-, f, hf, hkind⟩
    exact ⟨f, hf, (hs.hasScalarType_iff hvalue (lastField?_eq_some hf).1).2 (of_decide_eq_true hkind)⟩
  · rintro ⟨f, hf, hscalar⟩
    obtain ⟨hmem, hname⟩ := lastField?_eq_some hf
    exact ⟨hname ▸ List.mem_map_of_mem hmem, f, hf, decide_eq_true ((hs.hasScalarType_iff hvalue hmem).1 hscalar)⟩

end Results

end Definition

/-- Every name that is selected by default is a scalar field or the type name, and every scalar field is selected. -/
theorem Operation.mem_defaultSelection_iff (op : Operation) {n : String} (hn : n ≠ typenameField) :
    n ∈ op.defaultSelection ↔ n ∈ op.scalarFields := by
  unfold defaultSelection
  split
  next h =>
    rw [Bool.and_eq_true, List.isEmpty_iff] at h
    simp [h.1, hn]
  next => rfl

/-- For every operation of the client of a schema document, what it selects by default is, but for the type name, a field of
the type that the schema gives to its result, and has a scalar type. All these fields can be selected without arguments
exactly if every field of that type that has a scalar type can. -/
theorem default_selection_bare_iff {text : String} {s : Schema} {ignored : IgnoreList} {d : Definition} {op : Operation}
    (hs : Schema.ofSdl text = .ok s) (hd : Definition.ofSchema s ignored = .ok d) (hop : op ∈ d.catalog.operations) :
    ∃ t, s.resultOf? op.query.name = some t ∧
      (∀ n ∈ op.defaultSelection, n ≠ typenameField →
        ∃ f ∈ t.members, f.name = n ∧ lastField? t.members n = some f ∧ f.HasScalarType s) ∧
      ((∀ n ∈ op.defaultSelection, n ≠ typenameField → ∃ f, lastField? t.members n = some f ∧ f.Bare) ↔
        ∀ n f, n ≠ typenameField → lastField? t.members n = some f → f.HasScalarType s → f.Bare) := by
  have hcoherent := Schema.coherent_ofSdl hs
  obtain ⟨t, hresult, ht, -⟩ := Definition.exists_resultOf hcoherent hd hop
  have hselected : ∀ n, n ≠ typenameField →
      (n ∈ op.defaultSelection ↔ ∃ f, lastField? t.members n = some f ∧ f.HasScalarType s) := by
    intro n hn
    rw [op.mem_defaultSelection_iff hn, Definition.mem_scalarFields_iff hcoherent hd hop ht]
  refine ⟨t, hresult, ?_, ?_, ?_⟩
  · intro n hmem hn
    obtain ⟨f, hf, hscalar⟩ := (hselected n hn).1 hmem
    exact ⟨f, (lastField?_eq_some hf).1, (lastField?_eq_some hf).2, hf, hscalar⟩
  · intro hbare n f hn hf hscalar
    obtain ⟨g, hg, hgbare⟩ := hbare n ((hselected n hn).2 ⟨f, hf, hscalar⟩) hn
    rw [hf] at hg
    cases hg
    exact hgbare
  · intro hall n hmem hn
    obtain ⟨f, hf, hscalar⟩ := (hselected n hn).1 hmem
    exact ⟨f, hf, hall n f hn hf hscalar⟩

/-- A document with a type whose scalar fields have arguments that can be left out. -/
def profileText : String :=
  "type Query \x7b user: User \x7d " ++
  "type User \x7b id: ID name(length: Int! = 20, locale: ID): String friend(id: ID!): User \x7d"

/-- The fields of a user that are selected by default need no arguments, though a field that is not needs one. -/
theorem profile_selection_bare :
    ∃ s d op t, Schema.ofSdl profileText = .ok s ∧ Definition.ofSchema s IgnoreList.builtin = .ok d ∧
      op ∈ d.catalog.operations ∧ s.resultOf? op.query.name = some t ∧ op.defaultSelection = ["id", "name"] ∧
      (∃ f ∈ t.members, ¬ f.Bare) ∧
      ∀ n ∈ op.defaultSelection, n ≠ typenameField → ∃ f, lastField? t.members n = some f ∧ f.Bare := by
  have htest : Go.definesWith (fun d => decide (∃ op ∈ d.catalog.operations,
      op.query.name = "user" ∧ op.defaultSelection = ["id", "name"])) profileText = true := by decide +kernel
  have hresult : ((Schema.ofSdl profileText).toOption.any fun s => (s.resultOf? "user").any fun t =>
      decide ((∃ f ∈ t.members, ¬ f.Bare) ∧ ∀ f ∈ t.members, f.HasScalarType s → f.Bare)) = true := by decide +kernel
  obtain ⟨s, d, hs, hd, htest⟩ := Go.exists_of_definesWith htest
  obtain ⟨op, hop, hname, hselection⟩ := of_decide_eq_true htest
  obtain ⟨t, ht, -, hbare⟩ := default_selection_bare_iff hs hd hop
  rw [hs, Except.toOption, Option.any_some, ← hname, ht, Option.any_some] at hresult
  obtain ⟨hfriend, hscalars⟩ := of_decide_eq_true hresult
  exact ⟨s, d, op, t, hs, hd, hop, ht, hselection, hfriend,
    hbare.2 fun n f _ hf hscalar => hscalars f (lastField?_eq_some hf).1 hscalar⟩

/-- A document with a type one of whose scalar fields needs an argument. -/
def avatarText : String := "type Query \x7b user: User \x7d type User \x7b id: ID avatar(size: Int!): String \x7d"

/-- The avatar is selected by default, and cannot be selected without its size. -/
theorem avatar_selected_without_size :
    ∃ s d op t f, Schema.ofSdl avatarText = .ok s ∧ Definition.ofSchema s IgnoreList.builtin = .ok d ∧
      op ∈ d.catalog.operations ∧ s.resultOf? op.query.name = some t ∧ "avatar" ∈ op.defaultSelection ∧
      "avatar" ≠ typenameField ∧ lastField? t.members "avatar" = some f ∧ f.HasScalarType s ∧ ¬ f.Bare := by
  have htest : Go.definesWith (fun d => decide (∃ op ∈ d.catalog.operations,
      op.query.name = "user" ∧ "avatar" ∈ op.defaultSelection)) avatarText = true := by decide +kernel
  have hresult : ((Schema.ofSdl avatarText).toOption.any fun s => (s.resultOf? "user").any fun t =>
      (lastField? t.members "avatar").any fun f => decide (f.HasScalarType s ∧ ¬ f.Bare)) = true := by decide +kernel
  obtain ⟨s, d, hs, hd, htest⟩ := Go.exists_of_definesWith htest
  obtain ⟨op, hop, hname, hselected⟩ := of_decide_eq_true htest
  rw [hs, Except.toOption, Option.any_some, Option.any_eq_true] at hresult
  obtain ⟨t, ht, hfield⟩ := hresult
  obtain ⟨f, hf, hfield⟩ := (Option.any_eq_true ..).1 hfield
  obtain ⟨hscalar, hbare⟩ := of_decide_eq_true hfield
  exact ⟨s, d, op, t, f, hs, hd, hop, hname ▸ ht, hselected, by decide, hf, hscalar, hbare⟩

end SdkLoom
