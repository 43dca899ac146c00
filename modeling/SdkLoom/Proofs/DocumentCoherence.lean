import SdkLoom.Proofs.Catalog
import SdkLoom.Proofs.Documents

/-!
# The schema of a document is coherent

A document gives a kind to every name by its own rule, and the index of its schema finds definitions by another. The two
agree on every name (`Schema.kind_ofDocument`), also where a name is defined more than once or is that of a built-in scalar.
So every reference of the schema ends in a definition of its kind, and what is made of the references later on is described
as the types that they name, without a remark on a missing one (`document_coherent`).
-/

namespace SdkLoom

/-! ## References of definitions -/

/-- A reference that is a chain of nameless wrappers around another one, or that one itself. -/
inductive TypeRef.Wraps (leaf : TypeRef) : TypeRef → Prop where
  | self : Wraps leaf leaf
  | list {item : TypeRef} : Wraps leaf item → Wraps leaf (.list item)
  | nonNull {inner : TypeRef} : Wraps leaf inner → Wraps leaf (.nonNull inner)

/-- A chain around a named reference has that reference inside of all wrappers. -/
theorem TypeRef.Wraps.leaf_eq {kind : TypeKind} {n : String} {r : TypeRef} (h : TypeRef.Wraps (.named kind n) r) :
    r.leaf = .named kind n := by
  induction h with
  | self => cases kind <;> rfl
  | list _ ih => exact ih
  | nonNull _ ih => exact ih

/-- The references of a definition: those of its fields, of the arguments of its fields, and of its input fields. -/
def TypeDef.allRefs (t : TypeDef) : List TypeRef :=
  ((t.fields.getD []).flatMap fun f => f.type :: f.args.map InputValue.type) ++
    (t.inputFields.getD []).map InputValue.type

theorem TypeDef.mem_allRefs_iff (t : TypeDef) (r : TypeRef) :
    r ∈ t.allRefs ↔ (∃ f ∈ t.fields.getD [], f.type = r ∨ ∃ v ∈ f.args, v.type = r) ∨
      ∃ v ∈ t.inputFields.getD [], v.type = r := by
  simp only [allRefs, List.mem_append, List.mem_flatMap, List.mem_cons, List.mem_map, eq_comm (a := r)]

namespace Sdl

/-- The reference of a written type is a chain around the base name, with the kind that the document gives to it. -/
theorem TypeExpr.wraps_of_toRef {defs : List TypeDef} {e : TypeExpr} {r : TypeRef} (h : e.toRef defs = .ok r) :
    ∃ kind, kindOf? defs e.baseName = some kind ∧ TypeRef.Wraps (.named kind e.baseName) r := by
  induction e generalizing r with
  | named name =>
    rw [toRef] at h
    split at h
    next kind hkind =>
      cases h
      exact ⟨kind, hkind, .self⟩
    next => cases h
  | list item ih =>
    obtain ⟨r', hr, rfl⟩ := map_eq_ok_iff.1 h
    obtain ⟨kind, hkind, hwraps⟩ := ih hr
    exact ⟨kind, hkind, .list hwraps⟩
  | nonNull inner ih =>
    obtain ⟨r', hr, rfl⟩ := map_eq_ok_iff.1 h
    obtain ⟨kind, hkind, hwraps⟩ := ih hr
    exact ⟨kind, hkind, .nonNull hwraps⟩

/-- Every reference of a converted input value is that of a written type. -/
theorem InputValue.exists_toRef {defs : List TypeDef} {vs : List InputValue} {vs' : List SdkLoom.InputValue}
    (h : vs.mapM (InputValue.convert defs) = .ok vs') {v : SdkLoom.InputValue} (hv : v ∈ vs') :
    ∃ e : TypeExpr, e.toRef defs = .ok v.type := by
  obtain ⟨w, -, hw⟩ := exists_rel_of_mem_right (forall₂_of_mapM_eq_ok h) hv
  exact ⟨w.type, (InputValue.convert_eq_ok hw).2⟩

/-- Every reference of a converted field, and of its arguments, is that of a written type. -/
theorem Field.exists_toRef {defs : List TypeDef} {fs : List Field} {fs' : List FieldDef}
    (h : fs.mapM (Field.convert defs) = .ok fs') {f : FieldDef} (hf : f ∈ fs') {r : TypeRef}
    (hr : f.type = r ∨ ∃ v ∈ f.args, v.type = r) : ∃ e : TypeExpr, e.toRef defs = .ok r := by
  obtain ⟨g, -, hg⟩ := exists_rel_of_mem_right (forall₂_of_mapM_eq_ok h) hf
  rcases hr with rfl | ⟨v, hv, rfl⟩
  · exact ⟨g.type, (Field.convert_eq_ok hg).2⟩
  · obtain ⟨args, hargs, hg⟩ := bind_eq_ok_iff.1 hg
    obtain ⟨type, -, hg⟩ := bind_eq_ok_iff.1 hg
    cases hg
    exact InputValue.exists_toRef hargs hv

/-- Every reference of a converted definition is that of a written type. -/
theorem TypeDef.exists_toRef {defs : List TypeDef} {t : TypeDef} {t' : SdkLoom.TypeDef} (h : t.convert defs = .ok t')
    {r : TypeRef} (hr : r ∈ t'.allRefs) : ∃ e : TypeExpr, e.toRef defs = .ok r := by
  rw [SdkLoom.TypeDef.mem_allRefs_iff] at hr
  obtain ⟨description, name, body⟩ := t
  cases body with
  | object fs =>
    obtain ⟨fs', hfs, h⟩ := bind_eq_ok_iff.1 h
    cases h
    rcases hr with ⟨f, hf, hr⟩ | ⟨v, hv, -⟩
    · exact Field.exists_toRef hfs hf hr
    · exact absurd hv List.not_mem_nil
  | interface fs =>
    obtain ⟨fs', hfs, h⟩ := bind_eq_ok_iff.1 h
    cases h
    rcases hr with ⟨f, hf, hr⟩ | ⟨v, hv, -⟩
    · exact Field.exists_toRef hfs hf hr
    · exact absurd hv List.not_mem_nil
  | input vs =>
    obtain ⟨vs', hvs, h⟩ := bind_eq_ok_iff.1 h
    cases h
    rcases hr with ⟨f, hf, -⟩ | ⟨v, hv, rfl⟩
    · exact absurd hf List.not_mem_nil
    · exact InputValue.exists_toRef hvs hv
  | _ =>
    cases h
    rcases hr with ⟨f, hf, -⟩ | ⟨v, hv, -⟩
    · exact absurd hf List.not_mem_nil
    · exact absurd hv List.not_mem_nil

end Sdl

/-! ## The schema of a document -/

/-- The index of a document's schema gives to every name the kind that the document gives to it. -/
theorem Schema.kind_ofDocument {doc : Sdl.Document} {s : Schema} (h : Schema.ofDocument doc = .ok s) (n : String) :
    (s.index.get? n).map TypeDef.kind = Sdl.kindOf? (Sdl.typeDefs doc) n := by
  rw [Sdl.kindOf?]
  rcases Schema.index_ofDocument h n with ⟨t, t', hlast, hconvert, hindex⟩ | ⟨hlast, hindex⟩
  · rw [Sdl.lastDef?] at hlast
    rw [hlast, hindex, Option.map_some, (Sdl.TypeDef.convert_eq_ok hconvert).2.1]
  · rw [Sdl.lastDef?] at hlast
    rw [hlast, hindex]
    by_cases hn : n ∈ Sdl.builtinScalars
    · simp [hn, Sdl.scalarDef]
    · simp [hn]

/-- Every type of a document's schema is a converted definition or a built-in scalar. -/
theorem Schema.mem_types_ofDocument {doc : Sdl.Document} {s : Schema} (h : Schema.ofDocument doc = .ok s) {t : TypeDef}
    (ht : t ∈ s.types) :
    (∃ u : Sdl.TypeDef, u.convert (Sdl.typeDefs doc) = .ok t) ∨ ∃ n, t = Sdl.scalarDef n := by
  obtain ⟨types, hconvert, htypes⟩ := Schema.ofDocument_eq_ok h
  rw [htypes] at ht
  rcases List.mem_append.1 ht with ht | ht
  · left
    obtain ⟨u, -, hu⟩ := exists_rel_of_mem_right hconvert ht
    exact ⟨u, hu⟩
  · right
    obtain ⟨n, -, hn⟩ := List.mem_map.1 ht
    exact ⟨n, hn.symm⟩

/-- Every reference of a document's schema is a chain around a name that is defined, with the kind of its definition. -/
theorem Schema.wraps_ofDocument {doc : Sdl.Document} {s : Schema} (h : Schema.ofDocument doc = .ok s) {t : TypeDef}
    (ht : t ∈ s.types) {r : TypeRef} (hr : r ∈ t.allRefs) :
    ∃ n t', s.index.get? n = some t' ∧ TypeRef.Wraps (.named t'.kind n) r := by
  rcases Schema.mem_types_ofDocument h ht with ⟨u, hu⟩ | ⟨n, rfl⟩
  · obtain ⟨e, he⟩ := Sdl.TypeDef.exists_toRef hu hr
    obtain ⟨kind, hkind, hwraps⟩ := e.wraps_of_toRef he
    rw [← Schema.kind_ofDocument h] at hkind
    obtain ⟨t', ht', rfl⟩ := Option.map_eq_some_iff.1 hkind
    exact ⟨e.baseName, t', ht', hwraps⟩
  · exact absurd hr List.not_mem_nil

/-- A type that the index of a schema has is a type of the schema. -/
theorem Schema.mem_types_of_index {s : Schema} {t : TypeDef} (h : t ∈ s.index.values) : t ∈ s.types := by
  obtain ⟨n, hn⟩ := (s.index.mem_values_iff t).1 h
  rw [s.index_get?] at hn
  exact List.mem_reverse.1 (List.mem_of_find?_eq_some hn)

/-- The schema of a document is coherent. -/
theorem Schema.coherent_ofDocument {doc : Sdl.Document} {s : Schema} (h : Schema.ofDocument doc = .ok s) : s.Coherent := by
  have href : ∀ t ∈ s.index.values, ∀ r ∈ t.allRefs, r.Coherent s.index := by
    intro t ht r hr
    obtain ⟨n, t', ht', hwraps⟩ := Schema.wraps_ofDocument h (Schema.mem_types_of_index ht) hr
    rw [TypeRef.coherent_iff, hwraps.leaf_eq]
    exact ⟨n, t', rfl, ht', rfl⟩
  refine { fields := ?_, inputFields := ?_, rootArgs := ?_ }
  · intro t ht f hf
    exact href t ht _ ((t.mem_allRefs_iff _).2 (.inl ⟨f, hf, .inl rfl⟩))
  · intro t ht v hv
    exact href t ht _ ((t.mem_allRefs_iff _).2 (.inr ⟨v, hv, rfl⟩))
  · intro fs hfs f hf v hv
    obtain ⟨t, ht, hfield⟩ := Schema.mem_rootFields hfs hf
    exact href t ht _ ((t.mem_allRefs_iff _).2 (.inl ⟨f.field, hfield, .inr ⟨v, hv, rfl⟩⟩))

/-! ## Descriptors inside of a definition -/

namespace Definition

/-- The descriptors inside of a definition: those of the fields of its types, and those of the arguments, the results and the
result fields of its operations. -/
def nested (d : Definition) : List Descriptor :=
  (d.model.types.values.flatMap fun ty => OrderedMap.values ty.fieldList) ++
    ((OrderedMap.values d.catalog.queries).flatMap fun q => OrderedMap.values q.args ++ OrderedMap.values q.fields) ++
    (OrderedMap.values d.catalog.methods).flatMap fun m => OrderedMap.values m.args ++ [m.returnType]

/-- A definition has a type under the name that a descriptor refers to, and the two are of one kind, with the same class or
values. -/
def Agrees (d : Definition) (x : Descriptor) : Prop :=
  ∃ ty, d.model.types.get? x.gqlType = some ty ∧ ty.leaf = x.leaf

section Coherent

variable {s : Schema} {ignored : IgnoreList} {d : Definition}

/-- What is described from a coherent reference agrees with the type that it names. -/
theorem agrees_of_coherent (hd : ofSchema s ignored = .ok d) {x : Descriptor}
    (hx : ∃ r, r.Coherent s.index ∧ x.gqlType = (s.index.describeRef r).gqlType ∧
      x.leaf = (s.index.describeRef r).leaf) : d.Agrees x := by
  obtain ⟨r, hr, hname, hleaf⟩ := hx
  obtain ⟨ty, hty, htyleaf⟩ := leaf_of_coherent hd hr
  exact ⟨ty, by rw [hname]; exact hty, by rw [hleaf]; exact htyleaf⟩

theorem agrees_of_field (hs : s.Coherent) (hd : ofSchema s ignored = .ok d) {n : String} {ty : Descriptor}
    (hty : d.model.types.get? n = some ty) {x : Descriptor} (hx : x ∈ OrderedMap.values ty.fieldList) : d.Agrees x := by
  obtain ⟨t, ht, -, hfields⟩ := types_get?_eq_some hd hty
  obtain ⟨e, he, rfl⟩ := List.mem_map.1 hx
  rw [Descriptor.fieldList, hfields, s.index.describeRefs?_getD] at he
  obtain ⟨r, hr, rfl⟩ := List.mem_map.1 he
  exact agrees_of_coherent hd ⟨r.2, hs.refs ((s.index.mem_values_iff t).2 ⟨n, ht⟩) hr, rfl, rfl⟩

theorem agrees_of_query (hs : s.Coherent) (hd : ofSchema s ignored = .ok d) {q : QueryEntry}
    (hq : q ∈ OrderedMap.values d.catalog.queries) {x : Descriptor}
    (hx : x ∈ OrderedMap.values q.args ++ OrderedMap.values q.fields) : d.Agrees x := by
  obtain ⟨fs, hfs, hcatalog, -, -⟩ := ofSchema_eq_ok hd
  rw [hcatalog, Catalog.ofFields_eq] at hq
  obtain ⟨e, he, rfl⟩ := List.mem_map.1 hq
  obtain ⟨f, hf, rfl⟩ := List.mem_map.1 (OrderedMap.mem_of_mem_ofEntries he)
  rcases List.mem_append.1 hx with hx | hx
  · exact agrees_of_coherent hd (hs.args hfs hf hx)
  · -- the fields of the result are those of its type in the finished model
    rw [RootField.queryEntry, ← fields_of_types hd] at hx
    cases hty : d.model.types.get? (s.index.describeRef f.field.type).gqlType with
    | none =>
      rw [hty] at hx
      exact absurd hx List.not_mem_nil
    | some ty =>
      rw [hty] at hx
      exact agrees_of_field hs hd hty hx

/-- In the definition of a coherent schema every descriptor agrees with the type that it names. -/
theorem agrees_of_mem_nested (hs : s.Coherent) (hd : ofSchema s ignored = .ok d) {x : Descriptor} (hx : x ∈ d.nested) :
    d.Agrees x := by
  simp only [nested, List.mem_append, List.mem_flatMap] at hx
  rcases hx with (⟨ty, hty, hx⟩ | ⟨q, hq, hx⟩) | ⟨m, hm, hx⟩
  · obtain ⟨n, hn⟩ := (d.model.types.mem_values_iff ty).1 hty
    exact agrees_of_field hs hd hn hx
  · exact agrees_of_query hs hd hq (List.mem_append.2 hx)
  · exact agrees_of_coherent hd (coherent_of_mem_method hs hd hm (List.mem_append.2 hx))

end Coherent

end Definition

/-! ## Remarks -/

/-- Whether a remark is on the kind of a scalar or of another type. -/
def Diagnostic.onKind : Diagnostic → Bool
  | .unknownScalar _ => true
  | .unknownKind _ _ => true
  | _ => false

namespace Index

/-- A coherent reference is remarked on for its kind only. -/
theorem onKind_of_mem_refNotes {idx : Index} {r : TypeRef} (hr : r.Coherent idx) {note : Diagnostic}
    (h : note ∈ idx.refNotes r) : note.onKind = true := by
  fun_induction refNotes idx r with
  | case1 _ _ ih => exact ih hr h
  | case2 _ _ ih => exact ih hr h
  | case3 _ _ _ => exact absurd h List.not_mem_nil
  | case4 _ _ _ =>
    rw [List.mem_singleton.1 h]
    rfl
  | case5 _ _ _ => exact absurd h List.not_mem_nil
  | case6 name ofType hname =>
    -- the enumeration that a coherent reference names is defined
    obtain ⟨n, t, hn, ht, -⟩ := (TypeRef.coherent_iff idx _).1 hr
    cases hn
    exact absurd ((idx.contains_eq_true_iff n).2 ⟨t, ht⟩) hname
  | case7 _ _ => exact absurd h List.not_mem_nil
  | case8 _ _ => exact absurd h List.not_mem_nil
  | case9 _ _ _ _ _ _ _ _ _ =>
    rw [List.mem_singleton.1 h]
    rfl

/-- A definition whose fields and input fields have coherent references is remarked on for kinds only. -/
theorem onKind_of_mem_defNotes {idx : Index} {t : TypeDef} (hfields : ∀ f ∈ t.fields.getD [], f.type.Coherent idx)
    (hinputs : ∀ v ∈ t.inputFields.getD [], v.type.Coherent idx) {note : Diagnostic} (h : note ∈ idx.defNotes t) :
    note.onKind = true := by
  have hfieldNotes : note ∈ idx.fieldNotes t.fields → note.onKind = true := by
    intro h
    obtain ⟨f, hf, hnote⟩ := List.mem_flatMap.1 h
    exact onKind_of_mem_refNotes (hfields f hf) hnote
  have hinputNotes : note ∈ idx.inputNotes t.inputFields → note.onKind = true := by
    intro h
    obtain ⟨v, hv, hnote⟩ := List.mem_flatMap.1 h
    exact onKind_of_mem_refNotes (hinputs v hv) hnote
  unfold defNotes at h
  split at h
  · split at h
    · exact absurd h List.not_mem_nil
    · rw [List.mem_singleton.1 h]
      rfl
  · exact absurd h List.not_mem_nil
  · exact hfieldNotes h
  · exact hinputNotes h
  · rcases List.mem_cons.1 h with rfl | h
    · rfl
    · exact hfieldNotes h

end Index

/-- A coherent schema that has a definition is remarked on for kinds only. -/
theorem Definition.onKind_of_mem_notes {s : Schema} {ignored : IgnoreList} {d : Definition} (hs : s.Coherent)
    (hd : Definition.ofSchema s ignored = .ok d) {note : Diagnostic} (h : note ∈ Definition.notes s ignored) :
    note.onKind = true := by
  obtain ⟨fs, hfs, hcatalog, hmodel, -⟩ := Definition.ofSchema_eq_ok hd
  simp only [Definition.notes, hfs, List.mem_append] at h
  rcases h with h | h | h
  · obtain ⟨t, ht, hnote⟩ := List.mem_flatMap.1 h
    exact Index.onKind_of_mem_defNotes (hs.fields t ht) (hs.inputFields t ht) hnote
  · obtain ⟨f, hf, hnote⟩ := List.mem_flatMap.1 h
    rcases List.mem_append.1 hnote with hnote | hnote
    · obtain ⟨v, hv, hnote⟩ := List.mem_flatMap.1 hnote
      exact Index.onKind_of_mem_refNotes (hs.rootArgs fs hfs f hf v hv) hnote
    · obtain ⟨t, ht, hfield⟩ := Schema.mem_rootFields hfs hf
      exact Index.onKind_of_mem_refNotes (hs.fields t ht f.field hfield) hnote
  · -- every reference of the catalog names a type of the model, so none is left to remark on
    rw [← hcatalog] at h
    obtain ⟨ref, href, -⟩ := List.mem_map.1 h
    obtain ⟨href, hmissing⟩ := List.mem_filter.1 href
    obtain ⟨m, hm, href⟩ := List.mem_flatMap.1 href
    obtain ⟨ty, hty, rfl⟩ := List.mem_map.1 href
    obtain ⟨ty', hty', -⟩ := Definition.agrees_of_coherent hd (Definition.coherent_of_mem_method hs hd hm hty)
    have hcontains : (Model.ofIndex s.index ignored).types.contains ty.gqlType = true := by
      rw [← ((Model.ofIndex s.index ignored).track_marks d.catalog).contains, ← hmodel,
        SortedMap.contains_eq_true_iff]
      exact ⟨ty', hty'⟩
    simp [hcontains] at hmissing

/-- Every reference of the schema of a document, in a field, an argument or an input field of any of its types, is a chain of
nameless wrappers around a name that the index has, with the kind of the definition found there. So in the definition of
such a schema every descriptor is of the same kind as the type that it names, with the same class or values, and no remark
is made on an enumeration or on the type of an operation that is not defined. -/
theorem document_coherent (doc : Sdl.Document) (s : Schema) (hs : Schema.ofDocument doc = .ok s) :
    (∀ t ∈ s.types, ∀ r ∈ t.allRefs, ∃ n t', s.index.get? n = some t' ∧ TypeRef.Wraps (.named t'.kind n) r) ∧
    ∀ (ignored : IgnoreList) (d : Definition), Definition.ofSchema s ignored = .ok d →
      (∀ x ∈ d.nested, ∃ ty, d.model.types.get? x.gqlType = some ty ∧ ty.leaf = x.leaf) ∧
      ∀ note ∈ Definition.notes s ignored, note.message ≠ "enum reference without a definition" ∧
        note.message ≠ "operation references a type the schema does not define" := by
  have hcoherent := Schema.coherent_ofDocument hs
  refine ⟨fun t ht r hr => Schema.wraps_ofDocument hs ht hr, fun ignored d hd => ⟨?_, ?_⟩⟩
  · intro x hx
    exact Definition.agrees_of_mem_nested hcoherent hd hx
  · intro note hnote
    have hkind := Definition.onKind_of_mem_notes hcoherent hd hnote
    cases note with
    | unknownScalar _ => simp [Diagnostic.message]
    | unknownKind _ _ => simp [Diagnostic.message]
    | _ => cases hkind

/-- A document that defines a name as an enumeration and then as an object, and that defines a built-in scalar as an
enumeration. -/
def paletteDocument : Sdl.Document :=
  [.type ⟨none, "Color", .enum [⟨none, "RED"⟩]⟩,
    .type ⟨none, "Query", .object [⟨none, "colors", [⟨none, "depth", .nonNull (.named "Int"), none⟩],
      .nonNull (.list (.nonNull (.named "Color")))⟩]⟩,
    .type ⟨none, "Color", .object [⟨none, "depth", [], .named "Int"⟩, ⟨none, "name", [], .named "String"⟩]⟩,
    .type ⟨none, "Int", .enum [⟨none, "EIGHT"⟩, ⟨none, "SIXTEEN"⟩]⟩]

/-- The references to the colors and to the depth have the kinds of the last definitions, though the first definition of the
colors and the built-in scalar are of other kinds, and their descriptors agree with the types of the definition. -/
theorem palette_coherent :
    ∃ s d, Schema.ofDocument paletteDocument = .ok s ∧ Definition.ofSchema s IgnoreList.builtin = .ok d ∧
      (s.firstNamed? "Color").map TypeDef.kind = some .enum ∧
      (s.index.get? "Color").map TypeDef.kind = some .object ∧
      (∀ t ∈ s.types, ∀ r ∈ t.allRefs, ∃ n t', s.index.get? n = some t' ∧ TypeRef.Wraps (.named t'.kind n) r) ∧
      d.nested.map Descriptor.gqlType = ["Int", "String", "Color", "Int", "Int", "String", "Int", "Color"] ∧
      (∀ x ∈ d.nested, ∃ ty, d.model.types.get? x.gqlType = some ty ∧ ty.leaf = x.leaf) ∧
      ∀ note ∈ Definition.notes s IgnoreList.builtin, note.message ≠ "enum reference without a definition" ∧
        note.message ≠ "operation references a type the schema does not define" := by
  obtain ⟨hrefs, hdefinition⟩ := document_coherent paletteDocument _ rfl
  obtain ⟨hnested, hnotes⟩ := hdefinition IgnoreList.builtin _ rfl
  exact ⟨_, _, rfl, rfl, by decide, by decide, hrefs, by decide, hnested, hnotes⟩

end SdkLoom
