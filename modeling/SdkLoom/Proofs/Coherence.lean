import SdkLoom.Proofs.References
import SdkLoom.Proofs.Required

/-!
# Coherent schemas

A schema is coherent if every reference ends in a name that is defined, with the kind of its definition. Descriptors are
made of references and of definitions by separate rules; in a coherent schema the two agree, so that what a reference is
described as tells what the model has under its name (`Definition.leaf_of_coherent`).
-/

namespace SdkLoom

/-! ## The index of a schema -/

/-- The index gives the last definition of a name. -/
theorem Schema.index_get? (s : Schema) (n : String) :
    s.index.get? n = s.types.reverse.find? fun t => decide (t.name = n) := by
  rw [Schema.index, SortedMap.get?_ofList, ← List.map_reverse, List.find?_map, Option.map_map]
  exact congrFun Option.map_id _

/-- What the index gives for a name is a definition of that name. -/
theorem Schema.name_of_index_get? {s : Schema} {n : String} {t : TypeDef} (h : s.index.get? n = some t) : t.name = n := by
  rw [s.index_get?] at h
  simpa using List.find?_some h

/-! ## Descriptors of definitions -/

namespace Index

/-- A definition is described by the leaf that references of its kind to its name have. -/
theorem describeDef_leaf {idx : Index} {t : TypeDef} (h : idx.get? t.name = some t) :
    (idx.describeDef t).leaf = idx.leafOf t.kind t.name := by
  have hvalues : idx.enumValues t.name = t.literals := by simp [enumValues, h]
  obtain ⟨kind, name, description, fields, inputFields, enumValues⟩ := t
  cases kind with
  | enum => rw [leafOf, hvalues]; rfl
  | _ => rfl

end Index

/-- The references of a definition by field name: those of its input fields for an input, those of its fields for any other
definition but scalars and enumerations. Of several fields of one name the last counts. -/
def TypeDef.refs (t : TypeDef) : OrderedMap TypeRef :=
  match t.kind with
  | .scalar => []
  | .enum => []
  | .inputObject => OrderedMap.ofEntries ((t.inputFields.getD []).map fun v => (v.name, v.type))
  | _ => OrderedMap.ofEntries ((t.fields.getD []).map fun f => (f.name, f.type))

theorem TypeDef.distinct_refs (t : TypeDef) : OrderedMap.Distinct t.refs := by
  unfold TypeDef.refs
  split
  · exact .nil
  · exact .nil
  · exact OrderedMap.distinct_ofEntries _
  · exact OrderedMap.distinct_ofEntries _

/-- Every reference of a definition is the type of one of its fields or input fields. -/
theorem TypeDef.mem_of_mem_refs {t : TypeDef} {e : String × TypeRef} (h : e ∈ t.refs) :
    (∃ f ∈ t.fields.getD [], f.type = e.2) ∨ ∃ v ∈ t.inputFields.getD [], v.type = e.2 := by
  have hfields : e ∈ OrderedMap.ofEntries ((t.fields.getD []).map fun f => (f.name, f.type)) →
      ∃ f ∈ t.fields.getD [], f.type = e.2 := by
    intro he
    obtain ⟨f, hf, rfl⟩ := List.mem_map.1 (OrderedMap.mem_of_mem_ofEntries he)
    exact ⟨f, hf, rfl⟩
  obtain ⟨kind, name, description, fields, inputFields, enumValues⟩ := t
  cases kind with
  | scalar => exact absurd h List.not_mem_nil
  | enum => exact absurd h List.not_mem_nil
  | inputObject =>
    obtain ⟨v, hv, rfl⟩ := List.mem_map.1 (OrderedMap.mem_of_mem_ofEntries h)
    exact .inr ⟨v, hv, rfl⟩
  | _ => exact .inl (hfields h)

/-- References by name as descriptors by name; no references are no fields. -/
def Index.describeRefs? (idx : Index) (refs : OrderedMap TypeRef) : Option Fields :=
  if refs = [] then none else some (List.map (fun e => (e.1, (idx.describeRef e.2).withName e.1)) refs)

/-- Fields are described by their references, whatever has the references. -/
theorem Index.describedFields?_eq {α : Type} (idx : Index) (name : α → String) (type : α → TypeRef) (fs : Option (List α)) :
    describedFields? (fun l => OrderedMap.ofEntries (l.map fun a => (name a, (idx.describeRef (type a)).withName (name a))))
        fs = idx.describeRefs? (OrderedMap.ofEntries ((fs.getD []).map fun a => (name a, type a))) := by
  match fs with
  | none => rfl
  | some [] => rfl
  | some (a :: l) =>
    have hne : OrderedMap.ofEntries (((a :: l) : List α).map fun a => (name a, type a)) ≠ [] := by
      simp [OrderedMap.ofEntries_eq_nil_iff]
    have hmap := OrderedMap.ofEntries_map (fun n r => (idx.describeRef r).withName n)
      ((a :: l).map fun a => (name a, type a))
    rw [List.map_map] at hmap
    rw [describeRefs?, Option.getD_some, if_neg hne, ← hmap]
    rfl

/-- The fields that a definition is described with are the descriptors of its references. -/
theorem Index.fields_describeDef (idx : Index) (t : TypeDef) : (idx.describeDef t).fields = idx.describeRefs? t.refs := by
  have hfields := idx.describedFields?_eq FieldDef.name FieldDef.type t.fields
  have hinputs := idx.describedFields?_eq InputValue.name InputValue.type t.inputFields
  obtain ⟨kind, name, description, fields, inputFields, enumValues⟩ := t
  cases kind with
  | scalar => rfl
  | enum => rfl
  | inputObject => exact hinputs
  | _ => exact hfields

theorem Index.describeRefs?_eq_none_iff (idx : Index) (refs : OrderedMap TypeRef) :
    idx.describeRefs? refs = none ↔ refs = [] := by
  unfold describeRefs?
  split <;> simp [*]

/-- The list of descriptors of references. -/
theorem Index.describeRefs?_getD (idx : Index) (refs : OrderedMap TypeRef) :
    (idx.describeRefs? refs).getD [] = List.map (fun e => (e.1, (idx.describeRef e.2).withName e.1)) refs := by
  unfold describeRefs?
  split
  next h => rw [h]; rfl
  next => rfl

/-! ## Coherence -/

/-- A reference ends in a name that is defined, with the kind of its definition. -/
def TypeRef.Coherent (idx : Index) (r : TypeRef) : Prop :=
  (r.leaf.name.bind idx.get?).map TypeDef.kind = some r.leaf.kind

instance (idx : Index) (r : TypeRef) : Decidable (r.Coherent idx) := inferInstanceAs (Decidable (_ = _))

theorem TypeRef.coherent_iff (idx : Index) (r : TypeRef) :
    r.Coherent idx ↔ ∃ n t, r.leaf.name = some n ∧ idx.get? n = some t ∧ t.kind = r.leaf.kind := by
  simp [TypeRef.Coherent, Option.map_eq_some_iff, Option.bind_eq_some_iff]

/-- The references of the fields and input fields of all definitions that the index has, and those of the arguments of
all operations, are coherent. Definitions that a later one of the same name replaces may be anything. -/
structure Schema.Coherent (s : Schema) : Prop where
  fields : ∀ t ∈ s.index.values, ∀ f ∈ t.fields.getD [], f.type.Coherent s.index
  inputFields : ∀ t ∈ s.index.values, ∀ v ∈ t.inputFields.getD [], v.type.Coherent s.index
  rootArgs : ∀ fs, s.rootFields = .ok fs → ∀ f ∈ fs, ∀ v ∈ f.field.args, v.type.Coherent s.index

/-- Every reference by which a definition of a coherent schema describes its fields is coherent. -/
theorem Schema.Coherent.refs {s : Schema} (hs : s.Coherent) {t : TypeDef} (ht : t ∈ s.index.values)
    {e : String × TypeRef} (he : e ∈ t.refs) : e.2.Coherent s.index := by
  rcases TypeDef.mem_of_mem_refs he with ⟨f, hf, hfe⟩ | ⟨v, hv, hve⟩
  · rw [← hfe]
    exact hs.fields t ht f hf
  · rw [← hve]
    exact hs.inputFields t ht v hv

/-! ## Definitions of schemas -/

namespace Definition

/-- The types of a definition are those of the index, each with the leaf and the fields that its definition is described
with. -/
theorem types_get?_eq_some {s : Schema} {ignored : IgnoreList} {d : Definition} (h : ofSchema s ignored = .ok d)
    {n : String} {ty : Descriptor} (hty : d.model.types.get? n = some ty) :
    ∃ t, s.index.get? n = some t ∧ ty.leaf = s.index.leafOf t.kind n ∧ ty.fields = s.index.describeRefs? t.refs := by
  rw [(marks h).types, Model.types_get?_ofIndex, Option.map_map] at hty
  obtain ⟨t, ht, rfl⟩ := Option.map_eq_some_iff.1 hty
  have hname := Schema.name_of_index_get? ht
  subst hname
  exact ⟨t, ht, Index.describeDef_leaf ht, s.index.fields_describeDef t⟩

/-- Every name of the index is a name of the definition. -/
theorem types_get?_of_index {s : Schema} {ignored : IgnoreList} {d : Definition} (h : ofSchema s ignored = .ok d)
    {n : String} {t : TypeDef} (ht : s.index.get? n = some t) : ∃ ty, d.model.types.get? n = some ty := by
  rw [(marks h).types, Model.types_get?_ofIndex, ht]
  exact ⟨_, rfl⟩

/-- What a coherent reference is described as is what the definition has under its name. -/
theorem leaf_of_coherent {s : Schema} {ignored : IgnoreList} {d : Definition} (h : ofSchema s ignored = .ok d)
    {r : TypeRef} (hr : r.Coherent s.index) :
    ∃ ty, d.model.types.get? (s.index.describeRef r).gqlType = some ty ∧ ty.leaf = (s.index.describeRef r).leaf := by
  obtain ⟨n, t, hn, ht, hkind⟩ := (r.coherent_iff s.index).1 hr
  obtain ⟨hname, hleaf, -⟩ := s.index.describeRef_core r
  rw [hn, Option.getD_some] at hname hleaf
  obtain ⟨ty, hty⟩ := types_get?_of_index h ht
  obtain ⟨t', ht', htyleaf, -⟩ := types_get?_eq_some h hty
  rw [ht] at ht'
  cases ht'
  exact ⟨ty, by rw [hname]; exact hty, by rw [htyleaf, hleaf, hkind]⟩

end Definition

end SdkLoom
