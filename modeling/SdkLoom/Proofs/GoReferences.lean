import SdkLoom.Proofs.Catalog
import SdkLoom.Proofs.GoDeclarations

/-!
# Every Go type that is written is declared

The files of a client refer to types by name: those of types in the fields of structures, and that of the client, after the
qualifier of the package of types, in the requests, responses, parameters and results of methods. For a coherent schema each
of these names is declared in a file of types (`references_declared`): the required types are those of the operations, the
emitted types are closed under fields, and coherence says that what a field calls no scalar is none in the model.
-/

namespace SdkLoom.Go

/-! ## Names in type expressions -/

/-- The qualifier and the identifier that a type expression refers to, inside of slices and pointers; none for scalars. -/
def TypeExpr.target? : TypeExpr → Option (String × String)
  | .scalar _ => none
  | .named qualifier ident => some (qualifier, ident)
  | .slice element => element.target?
  | .pointer target => target.target?

/-- The type of a descriptor refers to the identifier of its type, unless that is a scalar. -/
theorem TypeExpr.target?_ofDescriptor (ps : Primitives) (qualifier : String) (owner : Option String) (d : Descriptor) :
    (ofDescriptor ps qualifier owner d).target? =
      if d.isPrimitive then none else some (qualifier, exported d.gqlType) := by
  have helement : (element ps qualifier d).target? =
      if d.isPrimitive then none else some (qualifier, exported d.gqlType) := by
    unfold element
    split <;> rfl
  unfold ofDescriptor
  split
  · exact helement
  · split
    · exact helement
    · exact helement

/-! ## Declarations of types -/

namespace TypeDecl

/-- The fields of a structure; other declarations have none. -/
def fields : TypeDecl → List StructField
  | .struct _ fs => fs
  | _ => []

/-- Whether a declaration is that of a structure. -/
def isStruct : TypeDecl → Bool
  | .struct _ _ => true
  | _ => false

theorem isStruct_of_mem_fields {decl : TypeDecl} {f : StructField} (h : f ∈ decl.fields) : decl.isStruct = true := by
  cases decl with
  | struct _ _ => rfl
  | _ => exact absurd h List.not_mem_nil

/-- A type is declared under its exported name. -/
theorem ident_ofDescriptor (ps : Primitives) (n : String) (d : Descriptor) : (ofDescriptor ps n d).ident = exported n := by
  unfold ofDescriptor
  split
  · rfl
  · rfl
  · rfl
  · split <;> rfl
  · rfl

/-- Objects, inputs and what else has fields are declared as structures. -/
theorem isStruct_ofDescriptor (ps : Primitives) (n : String) (d : Descriptor) :
    (ofDescriptor ps n d).isStruct = true ↔
      d.leaf = .object ∨ d.leaf = .input ∨ d.leaf = .unknown ∧ d.fields ≠ none := by
  unfold ofDescriptor
  split
  next hleaf => simp [hleaf, isStruct]
  next hleaf => simp [hleaf, isStruct, ofFields]
  next hleaf => simp [hleaf, isStruct, ofFields]
  next hleaf =>
    split
    next hfields => simp [hleaf, hfields, isStruct, ofFields]
    next hfields => simp [hleaf, hfields, isStruct]
  next hleaf => simp [hleaf, isStruct]

/-- A type that is declared as a structure is declared with all fields of its descriptor. -/
theorem ofDescriptor_of_isStruct {ps : Primitives} {n : String} {d : Descriptor} (h : (ofDescriptor ps n d).isStruct = true) :
    ofDescriptor ps n d = ofFields ps n d.fieldList := by
  unfold ofDescriptor at h ⊢
  split at h
  · cases h
  · rfl
  · rfl
  · split at h
    next fs hfs => rw [Descriptor.fieldList, hfs, Option.getD_some]
    next => cases h
  · cases h

end TypeDecl

namespace MethodDecl

/-- The types that are written for a method: those of the request, of the response, of the parameters and of the result. -/
def writtenTypes (m : MethodDecl) : List TypeExpr :=
  m.requestFields.map StructField.type ++ m.responseFields.map StructField.type ++ m.args.map MethodArg.type ++ [m.result]

/-- Every type that is written for an operation is that of an argument or of the result, in the package of types. -/
theorem mem_writtenTypes_ofOperation {ps : Primitives} {op : Operation} {e : TypeExpr}
    (h : e ∈ (ofOperation ps op).writtenTypes) :
    ∃ ty ∈ OrderedMap.values op.method.args ++ [op.method.returnType], e = .ofDescriptor ps typesQualifier none ty := by
  have harg : ∀ a ∈ op.method.args, ∃ ty ∈ OrderedMap.values op.method.args ++ [op.method.returnType],
      TypeExpr.ofDescriptor ps typesQualifier none a.2 = .ofDescriptor ps typesQualifier none ty :=
    fun a ha => ⟨a.2, List.mem_append_left _ (List.mem_map_of_mem ha), rfl⟩
  have hresult : ∃ ty ∈ OrderedMap.values op.method.args ++ [op.method.returnType],
      (ofOperation ps op).result = .ofDescriptor ps typesQualifier none ty :=
    ⟨op.method.returnType, List.mem_append_right _ List.mem_cons_self, rfl⟩
  simp only [writtenTypes, requestFields, responseFields, ofOperation, List.map_map, List.mem_append, List.mem_map,
    List.mem_singleton, List.map_cons, List.map_nil] at h
  rcases h with ((⟨a, ha, rfl⟩ | rfl) | ⟨a, ha, rfl⟩) | rfl
  · exact harg a ha
  · exact hresult
  · exact harg a ha
  · exact hresult

end MethodDecl

/-! ## Packages -/

/-- A definition has an emitted type under a name, and this is its declaration. -/
def DeclaredAs (d : Definition) (ps : Primitives) (n : String) (decl : TypeDecl) : Prop :=
  d.emitted.contains n = true ∧ ∃ ty, d.model.types.get? n = some ty ∧ decl = .ofDescriptor ps n ty

namespace Package

/-- The declarations of types of a package, those of inputs first. -/
def types (p : Package) : List TypeDecl := p.inputs ++ p.models

/-- The types that are declared for some names are those of the names that the model has. -/
theorem mem_typeDecls_iff (m : Model) (ps : Primitives) (names : List String) (decl : TypeDecl) :
    decl ∈ typeDecls m ps names ↔ ∃ n ∈ names, ∃ ty, m.types.get? n = some ty ∧ decl = .ofDescriptor ps n ty := by
  simp only [typeDecls, List.mem_map, m.mem_select_iff, NameSet.contains_ofNames]
  constructor
  · rintro ⟨⟨n, ty⟩, ⟨hn, hty⟩, rfl⟩
    exact ⟨n, hn, ty, hty, rfl⟩
  · rintro ⟨n, hn, ty, hty, rfl⟩
    exact ⟨(n, ty), ⟨hn, hty⟩, rfl⟩

/-- Some types are declared alike for models that have the same types under their names. -/
theorem typeDecls_congr {m m' : Model} {names : List String} (h : ∀ n ∈ names, m'.types.get? n = m.types.get? n)
    (ps : Primitives) : typeDecls m' ps names = typeDecls m ps names := by
  have hselect : m'.select (NameSet.ofNames names) = m.select (NameSet.ofNames names) := by
    refine List.filterMap_congr fun n hn => ?_
    rw [SortedMap.mem_keys_iff, NameSet.contains_ofNames] at hn
    rw [h n hn]
  rw [typeDecls, hselect, typeDecls]

/-- The package of a definition depends only on its catalog, on its emitted types and on which of these are inputs. -/
theorem ofDefinition_congr {d d' : Definition} (hcatalog : d'.catalog = d.catalog) (hemitted : d'.emitted = d.emitted)
    (htypes : ∀ n, d.emitted.contains n = true → d'.model.types.get? n = d.model.types.get? n)
    (hinputs : ∀ n, d.emitted.contains n = true → d'.model.inputs.contains n = d.model.inputs.contains n)
    (ps : Primitives) : ofDefinition d' ps = ofDefinition d ps := by
  have hkeys : ∀ n ∈ d.emitted.keys, d.emitted.contains n = true := fun n hn => (d.emitted.mem_keys_iff n).1 hn
  have hdecls : ∀ p : String → Bool, typeDecls d'.model ps (d.emitted.keys.filter p) =
      typeDecls d.model ps (d.emitted.keys.filter p) := fun p =>
    typeDecls_congr (fun n hn => htypes n (hkeys n (List.mem_filter.1 hn).1)) ps
  have hsplit : d.emitted.keys.filter d'.model.inputs.contains = d.emitted.keys.filter d.model.inputs.contains :=
    List.filter_congr fun n hn => hinputs n (hkeys n hn)
  have hsplit' : (d.emitted.keys.filter fun n => !d'.model.inputs.contains n) =
      d.emitted.keys.filter fun n => !d.model.inputs.contains n :=
    List.filter_congr fun n hn => by rw [hinputs n (hkeys n hn)]
  simp only [ofDefinition, hcatalog, hemitted, hsplit, hsplit', hdecls]

/-- A package declares the emitted types. -/
theorem mem_types_iff (d : Definition) (ps : Primitives) (decl : TypeDecl) :
    decl ∈ (ofDefinition d ps).types ↔ ∃ n, DeclaredAs d ps n decl := by
  simp only [types, ofDefinition, List.mem_append, mem_typeDecls_iff, List.mem_filter, SortedMap.mem_keys_iff]
  constructor
  · rintro (⟨n, ⟨hn, -⟩, hdecl⟩ | ⟨n, ⟨hn, -⟩, hdecl⟩)
    · exact ⟨n, hn, hdecl⟩
    · exact ⟨n, hn, hdecl⟩
  · rintro ⟨n, hn, ty, hty, rfl⟩
    cases hinput : d.model.inputs.contains n with
    | true => exact .inl ⟨n, ⟨hn, hinput⟩, ty, hty, rfl⟩
    | false => exact .inr ⟨n, ⟨hn, by simp [hinput]⟩, ty, hty, rfl⟩

end Package

/-! ## References -/

/-- A type is a scalar, or it is one of some names, and is written as the exported form of that name after a qualifier, behind
the mark of a slice or of a pointer or behind none. -/
def Resolves (ps : Primitives) (names : List String) (qualifier : String) (owner : Option String) (ty : Descriptor) : Prop :=
  ty.isPrimitive = true ∨ ty.gqlType ∈ names ∧
    ∃ mark ∈ ["", "[]", "*"], typeSpelling ps qualifier owner ty = mark ++ (qualifier ++ exported ty.gqlType)

/-- A type resolves if its name is one of the names, or if it is a scalar. -/
theorem resolves_of_mem {names : List String} {ty : Descriptor} (h : ty.isPrimitive = false → ty.gqlType ∈ names)
    (ps : Primitives) (qualifier : String) (owner : Option String) : Resolves ps names qualifier owner ty := by
  cases hprim : ty.isPrimitive with
  | true => exact .inl hprim
  | false =>
    refine .inr ⟨h hprim, if ty.list then "[]" else if owner = some ty.gqlType then "*" else "", ?_, ?_⟩
    · split
      · decide
      · split <;> decide
    · rw [typeSpelling, hprim, if_neg Bool.false_ne_true]

/-- The files of a client declare what they refer to. One file of types declares the types of some names, the other those of
other names, and the file of the client declares the operations. The types of the fields of the declared types, and those of
the arguments and of the results of the operations, are scalars or among the names. -/
structure ReferencesDeclared (d : Definition) (ps : Primitives) (module : String) (inputs models : List String) : Prop where
  inputsFile : DeclaresExactly d ps ((Package.ofDefinition d ps).files module) "cmd/main/types/inputs.go" inputs
  modelsFile : DeclaresExactly d ps ((Package.ofDefinition d ps).files module) "cmd/main/types/models.go" models
  clientFile : DeclaresOperations d ps module fun op text => ∃ f, DeclaresMethod ps op f text
  fields : ∀ n ∈ inputs ++ models, ∀ ty, d.model.types.get? n = some ty → ∀ f ∈ ty.fieldList,
    Resolves ps (inputs ++ models) "" (some n) f.2
  signatures : ∀ op ∈ d.catalog.operations, ∀ ty ∈ OrderedMap.values op.method.args ++ [op.method.returnType],
    Resolves ps (inputs ++ models) "types." none ty

section Schema

variable {s : Schema} {ignored : IgnoreList} {d : Definition}

/-- What a coherent reference calls no scalar can be declared. -/
theorem declarable_of_coherent (hd : Definition.ofSchema s ignored = .ok d) {r : TypeRef} (hr : r.Coherent s.index)
    (hprim : (s.index.describeRef r).isPrimitive = false) : d.model.Declarable (s.index.describeRef r).gqlType := by
  obtain ⟨ty, hty, hleaf⟩ := Definition.leaf_of_coherent hd hr
  refine ⟨ty, hty, ?_⟩
  rw [Descriptor.isPrimitive, hleaf]
  exact hprim

/-- The types of operations are reached. -/
theorem reached_of_method (hs : s.Coherent) (hd : Definition.ofSchema s ignored = .ok d) {m : Method}
    (hm : m ∈ OrderedMap.values d.catalog.methods) {ty : Descriptor}
    (hty : ty ∈ OrderedMap.values m.args ++ [m.returnType]) (hprim : ty.isPrimitive = false) :
    d.model.Reached d.required.keys ty.gqlType := by
  obtain ⟨r, hr, hname, hleaf⟩ := Definition.coherent_of_mem_method hs hd hm hty
  have hdeclarable : d.model.Declarable ty.gqlType := by
    rw [hname]
    refine declarable_of_coherent hd hr ?_
    rw [Descriptor.isPrimitive, ← hleaf]
    exact hprim
  refine .root ?_ hdeclarable
  obtain ⟨fs, -, -, hmodel, hrequired⟩ := Definition.ofSchema_eq_ok hd
  have hmarks := (Model.ofIndex s.index ignored).track_marks d.catalog
  obtain ⟨t, ht, -⟩ := hdeclarable
  rw [SortedMap.mem_keys_iff, hrequired, hmarks.required, ← hmarks.contains, ← hmodel, SortedMap.contains_eq_true_iff]
  exact ⟨⟨t, ht⟩, m, hm, ty, hty, hprim, rfl⟩

/-- The types that the fields of a reached type refer to are reached. -/
theorem reached_of_field (hs : s.Coherent) (hd : Definition.ofSchema s ignored = .ok d) {n : String} {ty : Descriptor}
    (hn : d.model.Reached d.required.keys n) (hty : d.model.types.get? n = some ty) {e : String × Descriptor}
    (he : e ∈ ty.fieldList) (hprim : e.2.isPrimitive = false) : d.model.Reached d.required.keys e.2.gqlType := by
  obtain ⟨t, ht, -, hfields⟩ := Definition.types_get?_eq_some hd hty
  have hrefers : d.model.Refers n e.2.gqlType :=
    ⟨ty, hty, List.mem_map.2 ⟨e.2, List.mem_filter.2 ⟨List.mem_map_of_mem he, by simp [hprim]⟩, rfl⟩⟩
  rw [Descriptor.fieldList, hfields, s.index.describeRefs?_getD] at he
  obtain ⟨x, hx, rfl⟩ := List.mem_map.1 he
  have hr : x.2.Coherent s.index := hs.refs ((s.index.mem_values_iff t).2 ⟨n, ht⟩) hx
  exact .step hn hrefers (declarable_of_coherent hd hr hprim)

end Schema

/-- In the files of the client of a coherent schema every type that is written is a scalar, or it is the exported name of a
type that a file of types declares: without a qualifier in the fields of the declared types, and after the qualifier of their
package in the requests, the responses, the parameters and the results of the methods. -/
theorem references_declared (s : Schema) (ignored : IgnoreList) (d : Definition) (ps : Primitives) (module : String)
    (hs : s.Coherent) (hd : Definition.ofSchema s ignored = .ok d) :
    ∃ inputs models, ReferencesDeclared d ps module inputs models := by
  generalize hinputs : d.emitted.keys.filter d.model.inputs.contains = inputs
  generalize hmodels : (d.emitted.keys.filter fun n => !d.model.inputs.contains n) = models
  have hnames : ∀ n, n ∈ inputs ++ models ↔ d.model.Reached d.required.keys n := by
    intro n
    rw [← hinputs, ← hmodels, (List.filter_append_perm _ _).mem_iff, SortedMap.mem_keys_iff, d.emitted_iff]
  refine ⟨inputs, models, ?_, ?_, ?_, ?_, ?_⟩
  · exact hinputs ▸ declaresExactly_typesFile rfl
  · exact hmodels ▸ declaresExactly_typesFile rfl
  · exact declaresOperations_files (fun op _ => ⟨_, declaresMethod_ofOperation ps op⟩) module
  · intro n hn ty hty f hf
    refine resolves_of_mem (fun hprim => ?_) ps _ _
    exact (hnames _).2 (reached_of_field hs hd ((hnames n).1 hn) hty hf hprim)
  · intro op hop ty hty
    refine resolves_of_mem (fun hprim => ?_) ps _ _
    exact (hnames _).2 (reached_of_method hs hd (Catalog.method_of_mem_operations hop) hty hprim)

/-- The types of the client of a library, which refer to each other and to an enumeration, are all declared. -/
theorem references_declared_library :
    librarySchema.Coherent ∧ ∃ d, Definition.ofSchema librarySchema ∅ = .ok d ∧ ∀ ps module,
      ∃ inputs models, ReferencesDeclared d ps module inputs models := by
  have hs : librarySchema.Coherent := by
    refine { fields := by decide, inputFields := by decide, rootArgs := ?_ }
    intro fs hfs
    cases hfs
    decide
  exact ⟨hs, _, rfl, fun ps module => references_declared librarySchema ∅ _ ps module hs rfl⟩

end SdkLoom.Go
