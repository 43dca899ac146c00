import SdkLoom.Proofs.Catalog

/-!
# What the definition of a schema depends on

Of the definitions of a name only the last counts, and of that no description and no default value is read, and arguments
only where the field is an operation. What is left of a schema without all this is its essence (`Schema.essence`), a schema
as well. It has the same definition and gets the same remarks, and so do any two schemas of one essence
(`same_essence_same_definition`).
-/

namespace SdkLoom

/-! ## Erasing what is not read -/

/-- An argument or input field without its description and its default value. -/
def InputValue.erased (v : InputValue) : InputValue := { v with description := none, defaultValue := none }

/-- A field without its description; its arguments are erased in turn, or left out. -/
def FieldDef.erased (keepArgs : Bool) (f : FieldDef) : FieldDef :=
  { f with description := none, args := if keepArgs then f.args.map InputValue.erased else [] }

/-- A value of an enumeration without its description. -/
def EnumValue.erased (v : EnumValue) : EnumValue := { v with description := none }

/-- A definition without descriptions and default values; the arguments of its fields may be left out as well. -/
def TypeDef.erased (keepArgs : Bool) (t : TypeDef) : TypeDef :=
  { t with
    description := none
    fields := t.fields.map (List.map (FieldDef.erased keepArgs))
    inputFields := t.inputFields.map (List.map InputValue.erased)
    enumValues := t.enumValues.map (List.map EnumValue.erased) }

/-- A root field without descriptions and default values. -/
def RootField.erased (f : RootField) : RootField := { f with field := f.field.erased true }

theorem TypeDef.literals_erased (keepArgs : Bool) (t : TypeDef) : (t.erased keepArgs).literals = t.literals := by
  unfold TypeDef.literals TypeDef.erased
  cases t.enumValues with
  | none => rfl
  | some values => simp [EnumValue.erased]

namespace Index

/-- An index with erased definitions; only the definitions of some names keep the arguments of their fields. -/
def erased (isRoot : String → Bool) (idx : Index) : Index := idx.mapWithKey fun n t => t.erased (isRoot n)

section Erased

variable (isRoot : String → Bool) (idx : Index)

theorem get?_erased (n : String) : (idx.erased isRoot).get? n = (idx.get? n).map (TypeDef.erased (isRoot n)) :=
  SortedMap.get?_mapWithKey _ idx n

theorem contains_erased (n : String) : (idx.erased isRoot).contains n = idx.contains n := by
  rw [SortedMap.contains, get?_erased, Option.isSome_map, SortedMap.contains]

theorem enumValues_erased (n : String) : (idx.erased isRoot).enumValues n = idx.enumValues n := by
  rw [enumValues, get?_erased, Option.map_map, enumValues]
  congr 2
  funext t
  exact t.literals_erased (isRoot n)

theorem describeRef_erased (r : TypeRef) : (idx.erased isRoot).describeRef r = idx.describeRef r :=
  describeRef_congr (idx.enumValues_erased isRoot _)

theorem refNotes_erased (r : TypeRef) : (idx.erased isRoot).refNotes r = idx.refNotes r :=
  refNotes_congr (idx.contains_erased isRoot _)

/-- Input fields are described by their names and types alone. -/
theorem inputMap_erased (vs : List InputValue) :
    (idx.erased isRoot).inputMap (vs.map InputValue.erased) = idx.inputMap vs := by
  simp only [inputMap, List.map_map, Function.comp_def, InputValue.erased, idx.describeRef_erased isRoot]

/-- Fields are described by their names and types alone. -/
theorem fieldMap_erased (keepArgs : Bool) (fs : List FieldDef) :
    (idx.erased isRoot).fieldMap (fs.map (FieldDef.erased keepArgs)) = idx.fieldMap fs := by
  simp only [fieldMap, List.map_map, Function.comp_def, FieldDef.erased, idx.describeRef_erased isRoot]

theorem fieldNotes_erased (keepArgs : Bool) (fs : Option (List FieldDef)) :
    (idx.erased isRoot).fieldNotes (fs.map (List.map (FieldDef.erased keepArgs))) = idx.fieldNotes fs := by
  cases fs with
  | none => rfl
  | some fs => simp [fieldNotes, List.flatMap_map, FieldDef.erased, idx.refNotes_erased isRoot]

theorem inputNotes_erased (vs : Option (List InputValue)) :
    (idx.erased isRoot).inputNotes (vs.map (List.map InputValue.erased)) = idx.inputNotes vs := by
  cases vs with
  | none => rfl
  | some vs => simp [inputNotes, List.flatMap_map, InputValue.erased, idx.refNotes_erased isRoot]

/-- Whether there are fields to describe does not depend on what they look like. -/
theorem describedFields?_map {α : Type} {erase : α → α} {describe describe' : List α → Fields}
    (h : ∀ l, describe' (l.map erase) = describe l) (fs : Option (List α)) :
    describedFields? describe' (fs.map (List.map erase)) = describedFields? describe fs := by
  match fs with
  | none => rfl
  | some [] => rfl
  | some (a :: l) => exact congrArg some (h (a :: l))

/-- An erased definition is described as before. -/
theorem describeDef_erased (keepArgs : Bool) (t : TypeDef) :
    (idx.erased isRoot).describeDef (t.erased keepArgs) = idx.describeDef t := by
  have hfields := describedFields?_map (idx.fieldMap_erased isRoot keepArgs) t.fields
  have hinputs := describedFields?_map (idx.inputMap_erased isRoot) t.inputFields
  have hliterals := t.literals_erased keepArgs
  obtain ⟨kind, name, description, fields, inputFields, enumValues⟩ := t
  cases kind with
  | scalar => rfl
  | enum => exact congrArg (fun values => Descriptor.ofLeaf name (.enum values)) hliterals
  | object => exact congrArg (fun fs => { Descriptor.ofLeaf name .object with fields := fs }) hfields
  | inputObject => exact congrArg (fun fs => { Descriptor.ofLeaf name .input with fields := fs }) hinputs
  | _ => exact congrArg (fun fs => { Descriptor.ofLeaf name .unknown with fields := fs }) hfields

/-- An erased definition is remarked on as before. -/
theorem defNotes_erased (keepArgs : Bool) (t : TypeDef) :
    (idx.erased isRoot).defNotes (t.erased keepArgs) = idx.defNotes t := by
  have hfields := idx.fieldNotes_erased isRoot keepArgs t.fields
  have hinputs := idx.inputNotes_erased isRoot t.inputFields
  obtain ⟨kind, name, description, fields, inputFields, enumValues⟩ := t
  cases kind with
  | scalar => rfl
  | enum => rfl
  | object => exact hfields
  | inputObject => exact hinputs
  | _ => exact congrArg (List.cons _) hfields

/-- A root that keeps its arguments has the erased root fields. -/
theorem rootFields_erased (kind : OperationKind) {root : String} (h : isRoot root = true) :
    (idx.erased isRoot).rootFields kind root = (idx.rootFields kind root).map (List.map RootField.erased) := by
  unfold rootFields
  rw [get?_erased, h]
  cases idx.get? root with
  | none => rfl
  | some t =>
    simp only [Option.map_some, TypeDef.erased]
    split
    · cases t.fields with
      | none => rfl
      | some fs => simp [Except.map, RootField.erased]
    · rfl

end Erased

end Index

/-! ## The parts of a definition -/

section Parts

variable (isRoot : String → Bool) (idx : Index)

/-- The model of an index is that of the erased index. -/
theorem Model.ofIndex_erased (ignored : IgnoreList) :
    Model.ofIndex (idx.erased isRoot) ignored = Model.ofIndex idx ignored := by
  have htypes : (Model.ofIndex (idx.erased isRoot) ignored).types = (Model.ofIndex idx ignored).types := by
    apply SortedMap.ext_get?
    intro n
    simp only [Model.types_get?_ofIndex, Index.get?_erased, Option.map_map, Function.comp_def, Index.describeDef_erased]
  have hmodels : (Model.ofIndex (idx.erased isRoot) ignored).models = (Model.ofIndex idx ignored).models := by
    apply NameSet.ext_contains
    intro n
    rw [contains_models_ofIndex, contains_models_ofIndex, Index.contains_erased]
  have hinputs : (Model.ofIndex (idx.erased isRoot) ignored).inputs = (Model.ofIndex idx ignored).inputs := by
    apply NameSet.ext_contains
    intro n
    rw [contains_inputs_ofIndex, contains_inputs_ofIndex, Index.contains_erased]
  exact Model.mk.injEq .. ▸ ⟨htypes, hmodels, hinputs, rfl⟩

/-- The types of an erased index are remarked on as before. -/
theorem Model.notes_erased : Model.notes (idx.erased isRoot) = Model.notes idx := by
  simp only [Model.notes, SortedMap.values, Index.erased, SortedMap.mapWithKey, List.map_map, List.flatMap_map,
    Function.comp_apply]
  exact List.flatMap_congr fun e _ => idx.defNotes_erased isRoot (isRoot e.1) e.2

/-- Erased root fields make the same operations. -/
theorem Catalog.ofFields_erased (m : Model) (fs : List RootField) :
    Catalog.ofFields (idx.erased isRoot) m (fs.map RootField.erased) = Catalog.ofFields idx m fs := by
  have hquery : ∀ f : RootField, f.erased.queryEntry (idx.erased isRoot) m = f.queryEntry idx m := by
    intro f
    simp only [RootField.queryEntry, RootField.erased, FieldDef.erased, if_true, Index.inputMap_erased,
      Index.describeRef_erased]
  have hmethod : ∀ f : RootField, f.erased.method (idx.erased isRoot) = f.method idx := by
    intro f
    simp only [RootField.method, RootField.erased, FieldDef.erased, if_true, Index.inputMap_erased,
      Index.describeRef_erased]
  rw [Catalog.ofFields_eq, Catalog.ofFields_eq, List.map_map, List.map_map]
  simp only [Function.comp_def, hquery, hmethod]
  rfl

/-- The definition that an index gives with some root fields. -/
def Definition.ofFields (idx : Index) (ignored : IgnoreList) (fs : List RootField) : Definition :=
  let model := Model.ofIndex idx ignored
  let catalog := Catalog.ofFields idx model fs
  { model := (model.track catalog).model, catalog, required := (model.track catalog).required }

/-- A schema has the definition that its index gives with its root fields, if it has these. -/
theorem Definition.ofSchema_eq (s : Schema) (ignored : IgnoreList) :
    Definition.ofSchema s ignored = s.rootFields.map (Definition.ofFields s.index ignored) := by
  unfold Definition.ofSchema
  cases s.rootFields <;> rfl

/-- Erased root fields give the same definition. -/
theorem Definition.ofFields_erased (ignored : IgnoreList) (fs : List RootField) :
    Definition.ofFields (idx.erased isRoot) ignored (fs.map RootField.erased) = Definition.ofFields idx ignored fs := by
  simp only [Definition.ofFields, Model.ofIndex_erased, Catalog.ofFields_erased]

/-- Erased root fields are remarked on as before. -/
theorem Catalog.notes_erased (fs : List RootField) :
    Catalog.notes (idx.erased isRoot) (fs.map RootField.erased) = Catalog.notes idx fs := by
  rw [Catalog.notes, List.flatMap_map, Catalog.notes]
  refine List.flatMap_congr fun f _ => ?_
  have hargs := idx.inputNotes_erased isRoot (some f.field.args)
  simp only [RootField.erased, FieldDef.erased, if_true, Index.refNotes_erased]
  rw [← hargs]
  rfl

end Parts

/-! ## The essence of a schema -/

namespace Schema

/-- The name of the query root, given or not. -/
def queryRoot (s : Schema) : String := s.queryType.getD defaultQueryRoot

/-- Whether a name is that of a root that the definition reads. -/
def isRoot (s : Schema) (n : String) : Bool := n == s.queryRoot || s.mutationType == some n

/-- The last of the definitions of a name. -/
def lastDef? (s : Schema) (n : String) : Option TypeDef := (s.types.filter fun t => decide (t.name = n)).getLast?

theorem index_get?_eq_lastDef? (s : Schema) (n : String) : s.index.get? n = s.lastDef? n := by
  rw [s.index_get?, lastDef?, List.getLast?_filter]

/-- All that a definition depends on, as a schema: the last definition of each name, erased, and the two roots. -/
def essence (s : Schema) : Schema where
  queryType := some s.queryRoot
  mutationType := s.mutationType
  subscriptionType := none
  types := (s.index.erased s.isRoot).values

/-- Two schemas agree on the names of the roots, and on the last definition of each name after erasing. -/
structure SameEssence (s s' : Schema) : Prop where
  queryRoot : s.queryRoot = s'.queryRoot
  mutationRoot : s.mutationType = s'.mutationType
  types : ∀ n, (s.lastDef? n).map (TypeDef.erased (s.isRoot n)) = (s'.lastDef? n).map (TypeDef.erased (s'.isRoot n))

theorem essence_eq {s s' : Schema} (h : s.SameEssence s') : s.essence = s'.essence := by
  have hindex : s.index.erased s.isRoot = s'.index.erased s'.isRoot := by
    apply SortedMap.ext_get?
    intro n
    rw [Index.get?_erased, Index.get?_erased, index_get?_eq_lastDef?, index_get?_eq_lastDef?, h.types]
  rw [essence, essence, hindex, h.queryRoot, h.mutationRoot]

/-- Every definition of the essence stands under its own name. -/
theorem index_essence (s : Schema) : s.essence.index = s.index.erased s.isRoot := by
  have hnames : ∀ e ∈ (s.index.erased s.isRoot).entries, (e.2.name, e.2) = e := by
    rintro ⟨n, u⟩ he
    have hget := (SortedMap.get?_eq_some_iff _).2 he
    rw [Index.get?_erased] at hget
    obtain ⟨t, ht, rfl⟩ := Option.map_eq_some_iff.1 hget
    have hname : t.name = n := name_of_index_get? ht
    exact Prod.ext hname rfl
  rw [index, essence, SortedMap.values, List.map_map]
  have hentries : (s.index.erased s.isRoot).entries.map ((fun t : TypeDef => (t.name, t)) ∘ Prod.snd) =
      (s.index.erased s.isRoot).entries := by
    conv_rhs => rw [← List.map_id (s.index.erased s.isRoot).entries]
    exact List.map_congr_left hnames
  rw [hentries]
  exact SortedMap.ofList_toList _

/-- The essence has the same roots, with erased fields. -/
theorem rootFields_essence (s : Schema) : s.essence.rootFields = s.rootFields.map (List.map RootField.erased) := by
  have hquery : s.isRoot s.queryRoot = true := by simp [isRoot]
  have hqueries := s.index.rootFields_erased s.isRoot .query hquery
  unfold rootFields
  rw [index_essence]
  simp only [essence, Option.getD_some, hqueries]
  unfold queryRoot
  cases s.index.rootFields .query (s.queryType.getD defaultQueryRoot) with
  | error e => rfl
  | ok queries =>
    cases hm : s.mutationType with
    | none => rfl
    | some root =>
      have hroot : s.isRoot root = true := by simp [isRoot, hm]
      have hmutations := s.index.rootFields_erased s.isRoot .mutation hroot
      simp only [hmutations, Except.map]
      cases s.index.rootFields .mutation root with
      | error e => rfl
      | ok mutations => exact congrArg Except.ok (List.map_append ..).symm

end Schema

namespace Definition

/-- A schema and its essence have the same definition. -/
theorem ofSchema_essence (s : Schema) (ignored : IgnoreList) : ofSchema s.essence ignored = ofSchema s ignored := by
  rw [ofSchema_eq, ofSchema_eq, s.index_essence, s.rootFields_essence]
  cases s.rootFields with
  | error e => simp only [Except.map]
  | ok fs => simp only [Except.map, ofFields_erased]

/-- A schema and its essence get the same remarks. -/
theorem notes_essence (s : Schema) (ignored : IgnoreList) : notes s.essence ignored = notes s ignored := by
  have hquery : s.isRoot s.queryRoot = true := by simp [Schema.isRoot]
  have hqueries := s.index.rootFields_erased s.isRoot .query hquery
  unfold notes
  rw [s.index_essence, s.rootFields_essence, Model.notes_erased]
  congr 1
  cases s.rootFields with
  | ok fs => simp only [Except.map, Catalog.notes_erased, Model.ofIndex_erased, Catalog.ofFields_erased]
  | error e =>
    simp only [Except.map, Schema.essence, Option.getD_some, hqueries]
    unfold Schema.queryRoot
    cases s.index.rootFields .query (s.queryType.getD Schema.defaultQueryRoot) with
    | error e => rfl
    | ok queries => exact Catalog.notes_erased s.isRoot s.index queries

end Definition

/-! ## Schemas that no definition tells apart -/

/-- Two schemas have the same definition or fail alike, and get the same remarks, whatever is ignored. -/
def Schema.Interchangeable (s s' : Schema) : Prop :=
  ∀ ignored, Definition.ofSchema s ignored = Definition.ofSchema s' ignored ∧
    Definition.notes s ignored = Definition.notes s' ignored

theorem Schema.SameEssence.interchangeable {s s' : Schema} (h : s.SameEssence s') : s.Interchangeable s' := by
  intro ignored
  rw [← Definition.ofSchema_essence s, ← Definition.notes_essence s, Schema.essence_eq h, Definition.ofSchema_essence,
    Definition.notes_essence]
  exact ⟨rfl, rfl⟩

/-- Types that leave the last definition of each name as it is may take the place of the types of a schema. -/
theorem Schema.sameEssence_of_lastDef? (s : Schema) {types : List TypeDef}
    (h : ∀ n, (types.filter fun t => decide (t.name = n)).getLast? = s.lastDef? n) :
    SameEssence { s with types } s where
  queryRoot := rfl
  mutationRoot := rfl
  types n := by
    rw [← h n]
    rfl

/-- Schemas with the same roots whose last definitions of each name are equal after erasing descriptions, default values and
the arguments of fields that are no operations cannot be told apart. So definitions of different names may be reordered, a
definition that a later one of its name replaces may be left out, and the subscription root may be any. -/
theorem same_essence_same_definition :
    (∀ s s' : Schema, s.SameEssence s' → s.Interchangeable s') ∧
    (∀ (s : Schema) (types : List TypeDef),
      (∀ n, (types.filter fun t => decide (t.name = n)) = s.types.filter fun t => decide (t.name = n)) →
      Schema.Interchangeable { s with types } s) ∧
    (∀ (s : Schema) (before after : List TypeDef) (t u : TypeDef), s.types = before ++ t :: after → u ∈ after →
      u.name = t.name → Schema.Interchangeable { s with types := before ++ after } s) ∧
    ∀ (s : Schema) (root : Option String), Schema.Interchangeable { s with subscriptionType := root } s := by
  refine ⟨fun s s' h => h.interchangeable, ?_, ?_, ?_⟩
  · intro s types h
    refine (s.sameEssence_of_lastDef? fun n => ?_).interchangeable
    rw [h n, Schema.lastDef?]
  · intro s before after t u htypes hu hname
    refine (s.sameEssence_of_lastDef? fun n => ?_).interchangeable
    rw [Schema.lastDef?, htypes, List.filter_append, List.filter_append, List.filter_cons]
    split
    next ht =>
      -- a later definition of the name is left, so the one that goes is not the last
      have hmem : u ∈ after.filter fun t => decide (t.name = n) := by
        rw [List.mem_filter, hname]
        exact ⟨hu, ht⟩
      obtain ⟨v, rest, hv⟩ := List.exists_cons_of_ne_nil (List.ne_nil_of_mem hmem)
      rw [hv, List.getLast?_append, List.getLast?_append, List.getLast?_cons_cons]
    next => rfl
  · intro s root
    exact Schema.SameEssence.interchangeable ⟨rfl, rfl, fun n => rfl⟩

/-- A schema of books with descriptions, with a default value for an argument of an operation, and with arguments for a
field that is no operation. -/
def annotatedSchema : Schema where
  queryType := none
  mutationType := none
  subscriptionType := none
  types :=
    [⟨.enum, "Language", some "What a book is written in.", none, none, some [⟨"EN", some "English"⟩, ⟨"DE", none⟩]⟩,
      ⟨.object, "Book", some "A printed book.", some
        [⟨"title", some "As on the cover.", [⟨"short", none, .named .scalar "Boolean", some "false"⟩],
            .named .scalar "String"⟩,
          ⟨"language", none, [], .named .enum "Language"⟩], none, none⟩,
      ⟨.object, "Query", none, some
        [⟨"books", some "All books.", [⟨"language", some "Of this language only.", .named .enum "Language", some "EN"⟩],
          .list (.named .object "Book")⟩], none, none⟩]

/-- The same books in another order, without descriptions and defaults, with other arguments where no operation takes them,
after a definition of books that is replaced. -/
def plainSchema : Schema where
  queryType := some "Query"
  mutationType := none
  subscriptionType := some "Query"
  types :=
    [⟨.scalar, "Book", none, none, none, none⟩,
      ⟨.object, "Query", none, some
        [⟨"books", none, [⟨"language", none, .named .enum "Language", none⟩], .list (.named .object "Book")⟩], none, none⟩,
      ⟨.object, "Book", none, some
        [⟨"title", none, [], .named .scalar "String"⟩,
          ⟨"language", none, [⟨"code", none, .named .scalar "Int", none⟩], .named .enum "Language"⟩], none, none⟩,
      ⟨.enum, "Language", none, none, none, some [⟨"EN", none⟩, ⟨"DE", none⟩]⟩]

/-- The two schemas of books are one in essence, have a definition, and cannot be told apart; nor can the second from itself
without the definition that is replaced. -/
theorem annotated_same_definition :
    annotatedSchema.SameEssence plainSchema ∧ annotatedSchema.Interchangeable plainSchema ∧
      (∃ d, Definition.ofSchema annotatedSchema ∅ = .ok d ∧ d.required.keys = ["Book", "Language"]) ∧
      Schema.Interchangeable { plainSchema with types := plainSchema.types.tail } plainSchema := by
  have hessence : annotatedSchema.SameEssence plainSchema := by
    refine ⟨rfl, rfl, fun n => ?_⟩
    by_cases hbook : n = "Book"
    · subst hbook
      rfl
    by_cases hlanguage : n = "Language"
    · subst hlanguage
      rfl
    by_cases hquery : n = "Query"
    · subst hquery
      rfl
    simp [Schema.lastDef?, annotatedSchema, plainSchema, Ne.symm hbook, Ne.symm hlanguage, Ne.symm hquery]
  obtain ⟨hsame, -, hreplaced, -⟩ := same_essence_same_definition
  exact ⟨hessence, hsame _ _ hessence, ⟨_, rfl, by decide⟩,
    hreplaced plainSchema [] plainSchema.types.tail _ _ rfl (List.mem_cons_of_mem _ List.mem_cons_self) rfl⟩

end SdkLoom
