import Mathlib.Data.List.Pairwise
import SdkLoom.Proofs.GoContainment
import SdkLoom.Proofs.GoIdentifiers

/-!
# Identifiers in their scopes

A client declares identifiers in four kinds of scopes: the package of types, the package of the client, the fields and
methods of the client itself, and the fields of each structure. Nothing keeps apart names that are exported as one
identifier, or whose identifiers meet once a prefix or an ending is added. So every scope is free of repetitions exactly
if the names of the document are apart (`identifiers_distinct_iff`), and a document that Go refuses is easily written
(`club_identifiers_repeated`).
-/

namespace SdkLoom

/-! ## Names in a document -/

namespace Sdl

/-- The values of an enumeration in order, repetitions included. -/
def Body.values : Body → List String
  | .enum values => values.map EnumValue.name
  | _ => []

/-- The values that a document gives to a name. -/
def valuesOf (defs : List TypeDef) (n : String) : List String := ((lastDef? defs n).map fun t => t.body.values).getD []

/-- The fields that a document gives to a name. -/
def fieldNamesOf (defs : List TypeDef) (n : String) : List String :=
  ((lastDef? defs n).map fun t => OrderedMap.keys t.body.fieldTypes).getD []

theorem Body.distinct_fieldTypes (body : Body) : OrderedMap.Distinct body.fieldTypes := by
  cases body with
  | object _ => exact OrderedMap.distinct_ofEntries _
  | interface _ => exact OrderedMap.distinct_ofEntries _
  | input _ => exact OrderedMap.distinct_ofEntries _
  | _ => exact .nil

theorem nodup_fieldNamesOf (defs : List TypeDef) (n : String) : (fieldNamesOf defs n).Nodup := by
  unfold fieldNamesOf
  cases lastDef? defs n with
  | none => exact .nil
  | some t => exact t.body.distinct_fieldTypes

/-- A definition is converted to one with the same values. -/
theorem TypeDef.literals_of_convert {defs : List TypeDef} {t : TypeDef} {t' : SdkLoom.TypeDef}
    (h : t.convert defs = .ok t') : t'.literals = t.body.values := by
  obtain ⟨description, name, body⟩ := t
  cases body with
  | object fs =>
    obtain ⟨fs', -, h⟩ := bind_eq_ok_iff.1 h
    cases h
    rfl
  | interface fs =>
    obtain ⟨fs', -, h⟩ := bind_eq_ok_iff.1 h
    cases h
    rfl
  | input vs =>
    obtain ⟨vs', -, h⟩ := bind_eq_ok_iff.1 h
    cases h
    rfl
  | enum values =>
    cases h
    simp [SdkLoom.TypeDef.literals, Body.values]
  | _ =>
    cases h
    rfl

end Sdl

/-- The names of the operations of a schema, in the order of the first root field of each name. -/
def Schema.operationNames (s : Schema) : List String := ((s.queryFields ++ s.mutationFields).map FieldDef.name).eraseDups

namespace Go

/-! ## Scopes of a package -/

/-- The identifiers that a declaration adds to its package. -/
def TypeDecl.idents : TypeDecl → List String
  | .enum ident constants => ident :: constants.map EnumConstant.ident
  | decl => [decl.ident]

/-- A declared type adds its own identifier and one for each of its values. -/
theorem TypeDecl.idents_ofDescriptor (ps : Primitives) (n : String) (ty : Descriptor) :
    (ofDescriptor ps n ty).idents = typeIdents n ty.values := by
  unfold ofDescriptor Descriptor.values
  split
  next values hleaf => simp only [idents, typeIdents, List.map_map, hleaf]; rfl
  next hleaf => rw [hleaf]; rfl
  next hleaf => rw [hleaf]; rfl
  next hleaf =>
    rw [hleaf]
    split <;> rfl
  next hleaf => rw [hleaf]; rfl

namespace Package

/-- The identifiers of the package of types: types and constants. -/
def typesScope (p : Package) : List String := p.types.flatMap TypeDecl.idents

/-- The identifiers of the package of the client. -/
def sdkScope (p : Package) : List String :=
  sharedIdents ++ p.operations.map (fun op => queryVariable op.query.name) ++ p.methods.map MethodDecl.requestIdent ++
    p.methods.map MethodDecl.responseIdent

/-- The fields and the methods of the client. -/
def clientScope (p : Package) : List String := ["Env", "Executor"] ++ p.methods.map MethodDecl.ident

/-- No scope of a package declares an identifier twice. -/
structure DistinctNames (p : Package) : Prop where
  types : p.typesScope.Nodup
  sdk : p.sdkScope.Nodup
  client : p.clientScope.Nodup
  fields : ∀ t ∈ p.types, (t.fields.map StructField.ident).Nodup
  requests : ∀ m ∈ p.methods, (m.requestFields.map StructField.ident).Nodup

/-- The types of a package are declared from the emitted types of a definition, each once. -/
theorem types_eq_map (d : Definition) (ps : Primitives) :
    ∃ es : List (String × Descriptor), (ofDefinition d ps).types = es.map (fun e => .ofDescriptor ps e.1 e.2) ∧
      (es.map Prod.fst).Nodup ∧ ∀ e, e ∈ es ↔ d.emitted.contains e.1 = true ∧ d.model.types.get? e.1 = some e.2 := by
  let inputs := NameSet.ofNames (d.emitted.keys.filter d.model.inputs.contains)
  let models := NameSet.ofNames (d.emitted.keys.filter fun n => !d.model.inputs.contains n)
  have hinputs : ∀ n, inputs.contains n = true ↔ d.emitted.contains n = true ∧ d.model.inputs.contains n = true := by
    intro n
    rw [NameSet.contains_ofNames, List.mem_filter, SortedMap.mem_keys_iff]
  have hmodels : ∀ n, models.contains n = true ↔ d.emitted.contains n = true ∧ d.model.inputs.contains n = false := by
    intro n
    rw [NameSet.contains_ofNames, List.mem_filter, SortedMap.mem_keys_iff, Bool.not_eq_true']
  refine ⟨d.model.select inputs ++ d.model.select models, (List.map_append ..).symm, ?_, fun e => ?_⟩
  · rw [List.map_append, d.model.keys_select, d.model.keys_select]
    refine List.nodup_append.2 ⟨inputs.nodup_keys.filter _, models.nodup_keys.filter _, ?_⟩
    rintro n hn _ hn' rfl
    have hinput := ((hinputs n).1 ((inputs.mem_keys_iff n).1 (List.mem_filter.1 hn).1)).2
    have hmodel := ((hmodels n).1 ((models.mem_keys_iff n).1 (List.mem_filter.1 hn').1)).2
    rw [hinput] at hmodel
    cases hmodel
  · rw [List.mem_append, d.model.mem_select_iff, d.model.mem_select_iff, hinputs, hmodels]
    cases d.model.inputs.contains e.1 <;> simp

end Package

/-! ## Names that are apart -/

/-- The names of a document are apart where a client exports them: those of the emitted types, of their values and of their
fields, and those of the operations and of their arguments. -/
structure NamesApart (defs : List Sdl.TypeDef) (s : Schema) (emitted : NameSet) : Prop where
  types : ∀ a b, emitted.contains a = true → emitted.contains b = true → Alike a b → a = b
  values : ∀ a, emitted.contains a = true →
    "" ∉ Sdl.valuesOf defs a ∧ (Sdl.valuesOf defs a).Pairwise fun v w => ¬ Alike v w
  constants : ∀ a b, emitted.contains a = true → emitted.contains b = true → a ≠ b → ∀ v ∈ Sdl.valuesOf defs a,
    exported a ++ exported v ≠ exported b ∧
      ∀ w ∈ Sdl.valuesOf defs b, exported a ++ exported v ≠ exported b ++ exported w
  fields : ∀ a, emitted.contains a = true →
    ∀ f ∈ Sdl.fieldNamesOf defs a, ∀ g ∈ Sdl.fieldNamesOf defs a, Alike f g → f = g
  operations : OperationsApart s.operationNames
  members : ∀ a ∈ s.operationNames, ¬ Alike a "Env" ∧ ¬ Alike a "Executor"
  args : ∀ n ∈ s.operationNames, ∀ f, lastField? (s.queryFields ++ s.mutationFields) n = some f →
    ∀ a ∈ f.args.map InputValue.name, ∀ b ∈ f.args.map InputValue.name, Alike a b → a = b

/-! ## Packages of documents -/

section Document

variable {doc : Sdl.Document} {s : Schema} {ignored : IgnoreList} {d : Definition}

/-- A schema lists the values of the definition that counts. -/
theorem enumValues_ofDocument (hs : Schema.ofDocument doc = .ok s) {n : String} {t : Sdl.TypeDef}
    (hlast : Sdl.lastDef? (Sdl.typeDefs doc) n = some t) : s.index.enumValues n = t.body.values := by
  rcases Schema.index_ofDocument hs n with ⟨t₁, t', hlast', hconvert, hindex⟩ | ⟨hnone, -⟩
  · rw [hlast] at hlast'
    cases hlast'
    rw [Index.enumValues, hindex, Option.map_some, Option.getD_some, Sdl.TypeDef.literals_of_convert hconvert]
  · rw [hlast] at hnone
    cases hnone

/-- An emitted type has the values and the fields that the document gives to its name. -/
theorem names_of_emitted (hs : Schema.ofDocument doc = .ok s) (hd : Definition.ofSchema s ignored = .ok d) {n : String}
    {ty : Descriptor} (hn : d.emitted.contains n = true) (hty : d.model.types.get? n = some ty) (ps : Primitives) :
    ty.values = Sdl.valuesOf (Sdl.typeDefs doc) n ∧
      (TypeDecl.ofDescriptor ps n ty).fields.map StructField.ident =
        (Sdl.fieldNamesOf (Sdl.typeDefs doc) n).map exported := by
  obtain ⟨ty', hty', hprim⟩ := ((d.emitted_iff n).1 hn).declarable
  rw [hty] at hty'
  cases hty'
  obtain ⟨t, refs, hlast, hleaf, hfields, hrefs⟩ := Definition.types_get?_ofDocument hs hd hty hprim
  have hkeys : OrderedMap.keys t.body.fieldTypes = OrderedMap.keys refs := by
    rw [← List.forall₂_eq_eq_eq]
    exact List.forall₂_map_left_iff.2 (List.forall₂_map_right_iff.2 (hrefs.imp fun _ _ h => h.1.symm))
  rw [Sdl.valuesOf, Sdl.fieldNamesOf, hlast, Option.map_some, Option.map_some, Option.getD_some, Option.getD_some]
  constructor
  · rw [Descriptor.values, hleaf]
    cases hbody : t.body with
    | enum values => exact (enumValues_ofDocument hs hlast).trans (congrArg _ hbody)
    | _ => rfl
  · have hstruct := isStruct_eq_isRecord ps hleaf hfields hrefs
    cases hrecord : t.body.isRecord with
    | true =>
      rw [TypeDecl.ofDescriptor_of_isStruct (hstruct.trans hrecord), hkeys, Descriptor.fieldList, hfields,
        s.index.describeRefs?_getD]
      simp only [TypeDecl.ofFields, TypeDecl.fields, OrderedMap.keys, List.map_map]
      rfl
    | false =>
      have hnone : (TypeDecl.ofDescriptor ps n ty).fields = [] := by
        refine List.eq_nil_iff_forall_not_mem.2 fun f hf => ?_
        rw [TypeDecl.isStruct_of_mem_fields hf, hrecord] at hstruct
        cases hstruct
      have hnone' : t.body.fieldTypes = [] := by
        refine List.eq_nil_iff_forall_not_mem.2 fun e he => ?_
        rw [Sdl.Body.isRecord_of_mem_fieldTypes he] at hrecord
        cases hrecord
      rw [hnone, hnone']
      rfl

/-- The name of an emitted type is one that the document defines. -/
theorem mem_names_of_emitted (hs : Schema.ofDocument doc = .ok s) (hd : Definition.ofSchema s ignored = .ok d) {n : String}
    (hn : d.emitted.contains n = true) : n ∈ (Sdl.typeDefs doc).map Sdl.TypeDef.name := by
  obtain ⟨ty, hty, hprim⟩ := ((d.emitted_iff n).1 hn).declarable
  obtain ⟨t, -, hlast, -⟩ := Definition.types_get?_ofDocument hs hd hty hprim
  obtain ⟨ht, rfl⟩ := Sdl.lastDef?_eq_some hlast
  exact List.mem_map_of_mem ht

/-- The identifiers of the package of types are distinct exactly if the emitted types and their values are apart. -/
theorem typesScope_nodup_iff (hs : Schema.ofDocument doc = .ok s) (hd : Definition.ofSchema s ignored = .ok d)
    (ps : Primitives) :
    (Package.ofDefinition d ps).typesScope.Nodup ↔
      ∀ a, d.emitted.contains a = true → (typeIdents a (Sdl.valuesOf (Sdl.typeDefs doc) a)).Nodup ∧
        ∀ b, d.emitted.contains b = true → a ≠ b → List.Disjoint (typeIdents a (Sdl.valuesOf (Sdl.typeDefs doc) a))
          (typeIdents b (Sdl.valuesOf (Sdl.typeDefs doc) b)) := by
  obtain ⟨es, htypes, hnodup, hmem⟩ := Package.types_eq_map d ps
  have hidents : ∀ e ∈ es, (TypeDecl.ofDescriptor ps e.1 e.2).idents =
      typeIdents e.1 (Sdl.valuesOf (Sdl.typeDefs doc) e.1) := by
    intro e he
    obtain ⟨hn, hty⟩ := (hmem e).1 he
    rw [TypeDecl.idents_ofDescriptor, (names_of_emitted hs hd hn hty ps).1]
  have hentry : ∀ a, d.emitted.contains a = true → ∃ ty, (a, ty) ∈ es := by
    intro a ha
    obtain ⟨ty, hty, -⟩ := ((d.emitted_iff a).1 ha).declarable
    exact ⟨ty, (hmem (a, ty)).2 ⟨ha, hty⟩⟩
  rw [Package.typesScope, htypes, List.flatMap_map, List.nodup_flatMap]
  constructor
  · rintro ⟨hown, hothers⟩ a ha
    obtain ⟨ty, hty⟩ := hentry a ha
    have hsymm : Std.Symm (Function.onFun List.Disjoint fun e : String × Descriptor =>
        (TypeDecl.ofDescriptor ps e.1 e.2).idents) := ⟨fun _ _ h => List.disjoint_symm h⟩
    refine ⟨hidents _ hty ▸ hown _ hty, fun b hb hab => ?_⟩
    obtain ⟨ty', hty'⟩ := hentry b hb
    have hdisjoint := hothers.forall hty hty' fun heq => hab (congrArg Prod.fst heq)
    rw [Function.onFun_apply, hidents _ hty, hidents _ hty'] at hdisjoint
    exact hdisjoint
  · intro h
    refine ⟨fun e he => ?_, hnodup.of_map.pairwise_of_forall_ne fun e he f hf hne => ?_⟩
    · rw [hidents e he]
      exact (h e.1 ((hmem e).1 he).1).1
    · have hnames : e.1 ≠ f.1 := fun heq => hne (List.inj_on_of_nodup_map hnodup he hf heq)
      rw [Function.onFun_apply, hidents e he, hidents f hf]
      exact (h e.1 ((hmem e).1 he).1).2 f.1 ((hmem f).1 hf).1 hnames

/-- The fields of the structures of the package of types are distinct exactly if those of each emitted type are apart. -/
theorem fields_nodup_iff (hs : Schema.ofDocument doc = .ok s) (hd : Definition.ofSchema s ignored = .ok d)
    (ps : Primitives) :
    (∀ t ∈ (Package.ofDefinition d ps).types, (t.fields.map StructField.ident).Nodup) ↔
      ∀ a, d.emitted.contains a = true → ∀ f ∈ Sdl.fieldNamesOf (Sdl.typeDefs doc) a,
        ∀ g ∈ Sdl.fieldNamesOf (Sdl.typeDefs doc) a, Alike f g → f = g := by
  simp only [Package.mem_types_iff, DeclaredAs]
  constructor
  · intro h a ha
    obtain ⟨ty, hty, -⟩ := ((d.emitted_iff a).1 ha).declarable
    have hnodup := h _ ⟨a, ha, ty, hty, rfl⟩
    rw [(names_of_emitted hs hd ha hty ps).2] at hnodup
    exact (nodup_map_exported_iff (Sdl.nodup_fieldNamesOf _ a)).1 hnodup
  · rintro h t ⟨a, ha, ty, hty, rfl⟩
    rw [(names_of_emitted hs hd ha hty ps).2]
    exact (nodup_map_exported_iff (Sdl.nodup_fieldNamesOf _ a)).2 (h a ha)

end Document

/-! ## Operations -/

section Operations

variable {s : Schema} {ignored : IgnoreList} {d : Definition}

/-- The operations of a definition are those of the root fields of its schema by name. -/
theorem operations_perm (hd : Definition.ofSchema s ignored = .ok d) :
    d.catalog.operations.Perm (List.map
      (fun e => { query := e.2.queryEntry s.index (Model.ofIndex s.index ignored), method := e.2.method s.index })
      (RootField.byName (RootField.ofRoots s.queryFields s.mutationFields))) := by
  obtain ⟨rs, hrs, hcatalog, -, -⟩ := Definition.ofSchema_eq_ok hd
  rw [hcatalog, Schema.rootFields_eq_ok hrs]
  exact Catalog.operations_perm _ _ _

/-- What is made of operations by their names is made of the names of the schema's operations. -/
theorem map_operations_perm (hd : Definition.ofSchema s ignored = .ok d) {α : Type} {f : Operation → α} {g : String → α}
    (hfg : ∀ op, op.query.name = op.method.name → f op = g op.method.name) :
    (d.catalog.operations.map f).Perm (s.operationNames.map g) := by
  refine ((operations_perm hd).map f).trans (List.Perm.of_eq ?_)
  rw [Schema.operationNames, ← RootField.keys_byName, OrderedMap.keys, List.map_map, List.map_map]
  refine List.map_congr_left fun e he => ?_
  rw [Function.comp_apply, Function.comp_apply, ← RootField.name_of_mem_byName he]
  exact hfg _ rfl

theorem nodup_operationNames (s : Schema) : s.operationNames.Nodup := by
  rw [Schema.operationNames, ← RootField.keys_byName]
  exact RootField.distinct_byName _

/-- The identifiers of the package of the client are distinct exactly if the operations are apart. -/
theorem sdkScope_nodup_iff (hd : Definition.ofSchema s ignored = .ok d) (ps : Primitives) :
    (Package.ofDefinition d ps).sdkScope.Nodup ↔ OperationsApart s.operationNames := by
  rw [← sdkIdents_nodup_iff (nodup_operationNames s), Package.sdkScope, sdkIdents]
  refine List.Perm.nodup_iff (.append (.append (.append_left _ ?_) ?_) ?_)
  · exact map_operations_perm hd fun op hop => congrArg queryVariable hop
  · rw [Package.ofDefinition, List.map_map]
    exact map_operations_perm hd fun op _ => rfl
  · rw [Package.ofDefinition, List.map_map]
    exact map_operations_perm hd fun op _ => rfl

/-- The methods and fields of the client are distinct exactly if no names of operations are alike, or like a field. -/
theorem clientScope_nodup_iff (hd : Definition.ofSchema s ignored = .ok d) (ps : Primitives) :
    (Package.ofDefinition d ps).clientScope.Nodup ↔
      (∀ a ∈ s.operationNames, ∀ b ∈ s.operationNames, Alike a b → a = b) ∧
        ∀ a ∈ s.operationNames, ¬ Alike a "Env" ∧ ¬ Alike a "Executor" := by
  rw [← clientIdents_nodup_iff (nodup_operationNames s), Package.clientScope, clientIdents]
  refine List.Perm.nodup_iff (.append_left _ ?_)
  rw [Package.ofDefinition, List.map_map]
  exact map_operations_perm hd fun op _ => rfl

/-- The fields of the requests are distinct exactly if the arguments of each operation are apart. -/
theorem requests_nodup_iff (hd : Definition.ofSchema s ignored = .ok d) (ps : Primitives) :
    (∀ m ∈ (Package.ofDefinition d ps).methods, (m.requestFields.map StructField.ident).Nodup) ↔
      ∀ n ∈ s.operationNames, ∀ f, lastField? (s.queryFields ++ s.mutationFields) n = some f →
        ∀ a ∈ f.args.map InputValue.name, ∀ b ∈ f.args.map InputValue.name, Alike a b → a = b := by
  have hfields : ∀ op, (MethodDecl.ofOperation ps op).requestFields.map StructField.ident =
      (OrderedMap.keys op.method.args).map exported := by
    intro op
    simp only [MethodDecl.requestFields, MethodDecl.ofOperation, OrderedMap.keys, List.map_map]
    rfl
  have hrequest : ∀ f : RootField, ((OrderedMap.keys (f.method s.index).args).map exported).Nodup ↔
      ∀ a ∈ f.field.args.map InputValue.name, ∀ b ∈ f.field.args.map InputValue.name, Alike a b → a = b := by
    intro f
    have hkeys : OrderedMap.keys (f.method s.index).args = (f.field.args.map InputValue.name).eraseDups := by
      rw [RootField.method, Index.inputMap, OrderedMap.keys_ofEntries, List.map_map]
      rfl
    have hdistinct : (OrderedMap.keys (f.method s.index).args).Nodup := OrderedMap.distinct_ofEntries _
    rw [nodup_map_exported_iff hdistinct, hkeys]
    simp only [List.mem_eraseDups]
  rw [Package.ofDefinition, List.forall_mem_map]
  simp only [hfields, (operations_perm hd).mem_iff, List.forall_mem_map, hrequest]
  constructor
  · intro h n hn f hf
    rw [Schema.operationNames, ← RootField.keys_byName] at hn
    obtain ⟨e, he, rfl⟩ := List.mem_map.1 hn
    rw [RootField.lastField?_of_mem_byName he] at hf
    cases hf
    exact h e he
  · intro h e he
    refine h e.1 ?_ e.2.field (RootField.lastField?_of_mem_byName he)
    rw [Schema.operationNames, ← RootField.keys_byName]
    exact List.mem_map_of_mem he

end Operations

/-- No scope of the client of a document declares an identifier twice exactly if the names of the document are apart. -/
theorem identifiers_distinct_iff (doc : Sdl.Document) (s : Schema) (ignored : IgnoreList) (d : Definition) (ps : Primitives)
    (hs : Schema.ofDocument doc = .ok s) (hd : Definition.ofSchema s ignored = .ok d) :
    (Package.ofDefinition d ps).DistinctNames ↔ NamesApart (Sdl.typeDefs doc) s d.emitted := by
  constructor
  · rintro ⟨htypes, hsdk, hclient, hfields, hrequests⟩
    have hidents := (typesScope_nodup_iff hs hd ps).1 htypes
    have hdisjoint : ∀ a b, d.emitted.contains a = true → d.emitted.contains b = true → a ≠ b → _ := fun a b ha hb hab =>
      (typeIdents_disjoint_iff a b _ _).1 ((hidents a ha).2 b hb hab)
    exact {
      types := fun a b ha hb halike => by
        by_contra hab
        exact (hdisjoint a b ha hb hab).1 halike
      values := fun a ha => (typeIdents_nodup_iff a _).1 (hidents a ha).1
      constants := fun a b ha hb hab v hv =>
        ⟨(hdisjoint a b ha hb hab).2.1 v hv, (hdisjoint a b ha hb hab).2.2.2 v hv⟩
      fields := (fields_nodup_iff hs hd ps).1 hfields
      operations := (sdkScope_nodup_iff hd ps).1 hsdk
      members := ((clientScope_nodup_iff hd ps).1 hclient).2
      args := (requests_nodup_iff hd ps).1 hrequests }
  · intro h
    refine {
      types := (typesScope_nodup_iff hs hd ps).2 fun a ha => ⟨(typeIdents_nodup_iff a _).2 (h.values a ha), ?_⟩
      sdk := (sdkScope_nodup_iff hd ps).2 h.operations
      client := (clientScope_nodup_iff hd ps).2 ⟨h.operations.alike, h.members⟩
      fields := (fields_nodup_iff hs hd ps).2 h.fields
      requests := (requests_nodup_iff hd ps).2 h.args }
    intro b hb hab
    refine (typeIdents_disjoint_iff a b _ _).2 ⟨fun halike => hab (h.types a b ha hb halike), ?_, ?_, ?_⟩
    · exact fun v hv => (h.constants a b ha hb hab v hv).1
    · exact fun w hw => (h.constants b a hb ha (Ne.symm hab) w hw).1
    · exact fun v hv => (h.constants a b ha hb hab v hv).2

/-- Guests of an inn, with rooms to look up and to book. Names differ by more than the case of their front, if only by the
case of a later letter. -/
def innDocument : Sdl.Document :=
  [.type ⟨none, "Query", .object [
      ⟨none, "room", [⟨none, "id", .nonNull (.named "ID"), none⟩, ⟨none, "iD", .named "Int", none⟩], .named "Room"⟩,
      ⟨none, "buildRoom", [], .named "Room"⟩]⟩,
    .type ⟨none, "Mutation", .object [⟨none, "book", [⟨none, "stay", .named "Stay", none⟩], .named "Guest"⟩]⟩,
    .type ⟨none, "Room", .object [⟨none, "name", [], .named "String"⟩, ⟨none, "nAME", [], .named "String"⟩,
      ⟨none, "state", [], .named "State"⟩]⟩,
    .type ⟨none, "Guest", .object [⟨none, "room", [], .named "Room"⟩, ⟨none, "statement", [], .named "Statement"⟩]⟩,
    .type ⟨none, "Stay", .input [⟨none, "nights", .named "Int", none⟩]⟩,
    .type ⟨none, "State", .enum [⟨none, "free"⟩, ⟨none, "FREE"⟩, ⟨none, "_free"⟩]⟩,
    .type ⟨none, "Statement", .object [⟨none, "total", [], .named "Int"⟩]⟩]

/-- The names of the inn's document are apart, and its client declares no identifier twice. -/
theorem inn_identifiers_distinct :
    ∃ s d, Schema.ofDocument innDocument = .ok s ∧ Definition.ofSchema s IgnoreList.builtin = .ok d ∧
      NamesApart (Sdl.typeDefs innDocument) s d.emitted ∧ ∀ ps, (Package.ofDefinition d ps).DistinctNames := by
  obtain ⟨s, d, hs, hd, hops, hargs⟩ :
      ∃ s d, Schema.ofDocument innDocument = .ok s ∧ Definition.ofSchema s IgnoreList.builtin = .ok d ∧
        s.operationNames = ["room", "buildRoom", "book"] ∧
        ∀ n ∈ ["room", "buildRoom", "book"], ∀ f ∈ lastField? (s.queryFields ++ s.mutationFields) n,
          ∀ a ∈ f.args.map InputValue.name, ∀ b ∈ f.args.map InputValue.name, Alike a b → a = b :=
    ⟨_, _, rfl, rfl, by decide, by decide⟩
  have hnames : ∀ a, d.emitted.contains a = true → a ∈ (Sdl.typeDefs innDocument).map Sdl.TypeDef.name := fun _ =>
    mem_names_of_emitted hs hd
  have htypes : ∀ a ∈ (Sdl.typeDefs innDocument).map Sdl.TypeDef.name,
      ∀ b ∈ (Sdl.typeDefs innDocument).map Sdl.TypeDef.name, Alike a b → a = b := by
    decide
  have hvalues : ∀ a ∈ (Sdl.typeDefs innDocument).map Sdl.TypeDef.name,
      "" ∉ Sdl.valuesOf (Sdl.typeDefs innDocument) a ∧
        (Sdl.valuesOf (Sdl.typeDefs innDocument) a).Pairwise fun v w => ¬ Alike v w := by
    decide
  have hconstants : ∀ a ∈ (Sdl.typeDefs innDocument).map Sdl.TypeDef.name,
      ∀ b ∈ (Sdl.typeDefs innDocument).map Sdl.TypeDef.name, a ≠ b → ∀ v ∈ Sdl.valuesOf (Sdl.typeDefs innDocument) a,
        exported a ++ exported v ≠ exported b ∧
          ∀ w ∈ Sdl.valuesOf (Sdl.typeDefs innDocument) b, exported a ++ exported v ≠ exported b ++ exported w := by
    decide
  have hfields : ∀ a ∈ (Sdl.typeDefs innDocument).map Sdl.TypeDef.name,
      ∀ f ∈ Sdl.fieldNamesOf (Sdl.typeDefs innDocument) a, ∀ g ∈ Sdl.fieldNamesOf (Sdl.typeDefs innDocument) a,
        Alike f g → f = g := by
    decide
  have hapart : NamesApart (Sdl.typeDefs innDocument) s d.emitted := by
    refine {
      types := fun a b ha hb => ?types
      values := fun a ha => ?values
      constants := fun a b ha hb => ?constants
      fields := fun a ha => ?fields
      operations := ?operations
      members := ?members
      args := hops ▸ hargs }
    case types => exact htypes a (hnames a ha) b (hnames b hb)
    case values => exact hvalues a (hnames a ha)
    case constants => exact hconstants a (hnames a ha) b (hnames b hb)
    case fields => exact hfields a (hnames a ha)
    case operations =>
      rw [hops]
      exact (sdkIdents_nodup_iff (by decide)).1 (by decide)
    case members =>
      rw [hops]
      decide
  exact ⟨s, d, hs, hd, hapart, fun ps => (identifiers_distinct_iff innDocument s _ d ps hs hd).2 hapart⟩

/-- Members of a club and their roles, with names that are alike among the operations, arguments, fields and values, and
an operation whose name is like a field of the client. -/
def clubDocument : Sdl.Document :=
  [.type ⟨none, "Query", .object [
      ⟨none, "member", [⟨none, "id", .named "ID", none⟩, ⟨none, "Id", .named "ID", none⟩], .named "Member"⟩,
      ⟨none, "Member", [], .named "Member"⟩, ⟨none, "env", [], .named "Int"⟩]⟩,
    .type ⟨none, "Member", .object [⟨none, "id", [], .named "ID"⟩, ⟨none, "Id", [], .named "ID"⟩,
      ⟨none, "role", [], .named "Role"⟩]⟩,
    .type ⟨none, "Role", .enum [⟨none, "admin"⟩, ⟨none, "Admin"⟩]⟩]

/-- Every kind of scope repeats an identifier in the client of the club. -/
theorem club_identifiers_repeated :
    ∃ s d, Schema.ofDocument clubDocument = .ok s ∧ Definition.ofSchema s IgnoreList.builtin = .ok d ∧
      ∀ ps, ¬ (Package.ofDefinition d ps).typesScope.Nodup ∧ ¬ (Package.ofDefinition d ps).sdkScope.Nodup ∧
        ¬ (Package.ofDefinition d ps).clientScope.Nodup ∧
        (∃ t ∈ (Package.ofDefinition d ps).types, ¬ (t.fields.map StructField.ident).Nodup) ∧
        ∃ m ∈ (Package.ofDefinition d ps).methods, ¬ (m.requestFields.map StructField.ident).Nodup := by
  obtain ⟨s, d, hs, hd, hops, hargs, hroot, hmember, hrefers, hrole⟩ :
      ∃ s d, Schema.ofDocument clubDocument = .ok s ∧ Definition.ofSchema s IgnoreList.builtin = .ok d ∧
        s.operationNames = ["member", "Member", "env"] ∧
        (∃ f, lastField? (s.queryFields ++ s.mutationFields) "member" = some f ∧
          f.args.map InputValue.name = ["id", "Id"]) ∧
        "Member" ∈ d.required.keys ∧ d.model.Declarable "Member" ∧ d.model.Refers "Member" "Role" ∧
        d.model.Declarable "Role" :=
    ⟨_, _, rfl, rfl, by decide, ⟨_, rfl, by decide⟩, by decide, ⟨_, rfl, rfl⟩, ⟨_, rfl, by decide⟩, ⟨_, rfl, rfl⟩⟩
  obtain ⟨f, hf, hargs⟩ := hargs
  have hreached : d.model.Reached d.required.keys "Member" := .root hroot hmember
  have hemitted := (d.emitted_iff "Member").2 hreached
  have hemitted' := (d.emitted_iff "Role").2 (.step hreached hrefers hrole)
  have hops' : "member" ∈ s.operationNames ∧ "Member" ∈ s.operationNames ∧ "env" ∈ s.operationNames := by
    rw [hops]
    decide
  refine ⟨s, d, hs, hd, fun ps => ⟨fun h => ?types, fun h => ?sdk, fun h => ?client, ?fields, ?requests⟩⟩
  case types =>
    have hnodup := ((typesScope_nodup_iff hs hd ps).1 h "Role" hemitted').1
    exact absurd hnodup (by decide)
  case sdk =>
    have halike := ((sdkScope_nodup_iff hd ps).1 h).alike _ hops'.1 _ hops'.2.1 (by decide)
    exact absurd halike (by decide)
  case client =>
    have henv := (((clientScope_nodup_iff hd ps).1 h).2 _ hops'.2.2).1
    exact henv (by decide)
  case fields =>
    by_contra! h
    have hid := (fields_nodup_iff hs hd ps).1 h "Member" hemitted "id" (by decide) "Id" (by decide) (by decide)
    exact absurd hid (by decide)
  case requests =>
    by_contra! h
    have hid := (requests_nodup_iff hd ps).1 h "member" hops'.1 f hf "id" (by simp [hargs]) "Id" (by simp [hargs])
      (by decide)
    exact absurd hid (by decide)

end Go

end SdkLoom
