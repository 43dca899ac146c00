import SdkLoom.Operation.Order
import SdkLoom.Proofs.Coherence

/-!
# Where the operations of a catalog come from

Every method of a catalog is made of one root field, and every root field is a field of a definition of the schema. So in a
coherent schema the types that operations take and return are described as what the model has under their names. The two
sides of a catalog are written in step: they list the same names in the same order, and under each name both describe the
last root field of that name (`catalog_sides_agree`).
-/

namespace SdkLoom

/-- The method of a root field. -/
def RootField.method (idx : Index) (f : RootField) : Method :=
  { name := f.field.name, args := idx.inputMap f.field.args, returnType := idx.describeRef f.field.type, isAsync := true,
    kind := f.kind }

namespace Catalog

/-- Every method of a catalog is the method of a root field that was added. -/
theorem mem_methods_ofFields {idx : Index} {m : Model} {fs : List RootField} {e : String × Method}
    (h : e ∈ (Catalog.ofFields idx m fs).methods) : ∃ f ∈ fs, e = (f.field.name, f.method idx) := by
  have hfold : ∀ c : Catalog, e ∈ (fs.foldl (addField idx m) c).methods →
      e ∈ c.methods ∨ ∃ f ∈ fs, e = (f.field.name, f.method idx) := by
    clear h
    induction fs with
    | nil => intro c hc; exact .inl hc
    | cons f rest ih =>
      intro c hc
      rcases ih _ hc with hc | ⟨g, hg, he⟩
      · rcases OrderedMap.mem_insert hc with he | hc
        · exact .inr ⟨f, List.mem_cons_self, he⟩
        · exact .inl hc
      · exact .inr ⟨g, List.mem_cons_of_mem _ hg, he⟩
  rcases hfold _ h with h | h
  · exact absurd h List.not_mem_nil
  · exact h

/-- The method of an operation is a method of the catalog. -/
theorem method_of_mem_operations {c : Catalog} {op : Operation} (h : op ∈ c.operations) :
    op.method ∈ OrderedMap.values c.methods := by
  unfold operations at h
  rw [List.mem_mergeSort, List.mem_filterMap] at h
  obtain ⟨query, -, hop⟩ := h
  obtain ⟨method, hmethod, rfl⟩ := Option.map_eq_some_iff.1 hop
  exact OrderedMap.mem_values_of_get? hmethod

end Catalog

/-! ## Root fields -/

/-- The fields of the query root. -/
def Schema.queryFields (s : Schema) : List FieldDef :=
  ((s.index.get? (s.queryType.getD Schema.defaultQueryRoot)).bind TypeDef.fields).getD []

/-- The fields of the mutation root, none if the schema names none. -/
def Schema.mutationFields (s : Schema) : List FieldDef :=
  ((s.mutationType.bind s.index.get?).bind TypeDef.fields).getD []

/-- The root fields of the fields of two roots, those of the query root first. -/
def RootField.ofRoots (queries mutations : List FieldDef) : List RootField :=
  queries.map (RootField.mk .query) ++ mutations.map (RootField.mk .mutation)

theorem RootField.map_field_ofRoots (queries mutations : List FieldDef) :
    (ofRoots queries mutations).map RootField.field = queries ++ mutations := by
  simp [ofRoots, Function.comp_def]

theorem Index.rootFields_eq_ok {idx : Index} {kind : OperationKind} {root : String} {fs : List RootField}
    (h : idx.rootFields kind root = .ok fs) :
    fs = (((idx.get? root).bind TypeDef.fields).getD []).map (RootField.mk kind) := by
  unfold Index.rootFields at h
  split at h
  · rename_i t ht
    split at h
    · cases h
      rw [ht]
      rfl
    · cases h
  · cases h

/-- The root fields of a schema are the fields of its two roots, each with the kind of its root. -/
theorem Schema.rootFields_eq_ok {s : Schema} {fs : List RootField} (h : s.rootFields = .ok fs) :
    fs = RootField.ofRoots s.queryFields s.mutationFields := by
  unfold Schema.rootFields at h
  cases hq : s.index.rootFields .query (s.queryType.getD Schema.defaultQueryRoot) with
  | error e =>
    rw [hq] at h
    cases h
  | ok queries =>
    rw [hq] at h
    rw [RootField.ofRoots, Schema.queryFields, ← Index.rootFields_eq_ok hq, Schema.mutationFields]
    cases hm : s.mutationType with
    | none =>
      rw [hm] at h
      cases h
      exact (List.append_nil _).symm
    | some root =>
      rw [hm] at h
      cases hr : s.index.rootFields .mutation root with
      | error e =>
        simp only [hr] at h
        cases h
      | ok mutations =>
        simp only [hr] at h
        cases h
        rw [Option.bind_some, ← Index.rootFields_eq_ok hr]

/-- A field of the definition that an index gives for a name is a field of one of its definitions. -/
theorem Index.mem_fields_of_get? {idx : Index} (root : Option String) {f : FieldDef}
    (h : f ∈ ((root.bind idx.get?).bind TypeDef.fields).getD []) : ∃ t ∈ idx.values, f ∈ t.fields.getD [] := by
  cases root with
  | none => exact absurd h List.not_mem_nil
  | some n =>
    rw [Option.bind_some] at h
    cases ht : idx.get? n with
    | none =>
      rw [ht] at h
      exact absurd h List.not_mem_nil
    | some t =>
      rw [ht] at h
      exact ⟨t, (idx.mem_values_iff t).2 ⟨n, ht⟩, h⟩

/-- The fields of the two roots are fields of definitions of the index. -/
theorem Schema.exists_of_mem_fields {s : Schema} {f : FieldDef} (h : f ∈ s.queryFields ++ s.mutationFields) :
    ∃ t ∈ s.index.values, f ∈ t.fields.getD [] := by
  rcases List.mem_append.1 h with h | h
  · exact Index.mem_fields_of_get? (some _) h
  · exact Index.mem_fields_of_get? s.mutationType h

/-- The root fields of a schema are fields of definitions of its index. -/
theorem Schema.mem_rootFields {s : Schema} {fs : List RootField} (h : s.rootFields = .ok fs) {f : RootField}
    (hf : f ∈ fs) : ∃ t ∈ s.index.values, f.field ∈ t.fields.getD [] := by
  rw [Schema.rootFields_eq_ok h] at hf
  refine Schema.exists_of_mem_fields ?_
  rw [← RootField.map_field_ofRoots]
  exact List.mem_map_of_mem hf

/-- Every argument of a root field of a coherent schema is described from a coherent reference. -/
theorem Schema.Coherent.args {s : Schema} (hs : s.Coherent) {fs : List RootField} (hfs : s.rootFields = .ok fs)
    {f : RootField} (hf : f ∈ fs) {ty : Descriptor} (hty : ty ∈ OrderedMap.values (s.index.inputMap f.field.args)) :
    ∃ r, r.Coherent s.index ∧ ty.gqlType = (s.index.describeRef r).gqlType ∧ ty.leaf = (s.index.describeRef r).leaf := by
  obtain ⟨a, ha, rfl⟩ := List.mem_map.1 hty
  obtain ⟨v, hv, rfl⟩ := List.mem_map.1 (OrderedMap.mem_of_mem_ofEntries ha)
  exact ⟨v.type, hs.rootArgs fs hfs f hf v hv, rfl, rfl⟩

/-- Every type that an operation of a coherent schema takes or returns is described from a coherent reference. -/
theorem Definition.coherent_of_mem_method {s : Schema} {ignored : IgnoreList} {d : Definition} (hs : s.Coherent)
    (h : Definition.ofSchema s ignored = .ok d) {m : Method} (hm : m ∈ OrderedMap.values d.catalog.methods)
    {ty : Descriptor} (hty : ty ∈ OrderedMap.values m.args ++ [m.returnType]) :
    ∃ r, r.Coherent s.index ∧ ty.gqlType = (s.index.describeRef r).gqlType ∧ ty.leaf = (s.index.describeRef r).leaf := by
  obtain ⟨fs, hfs, hcatalog, -, -⟩ := Definition.ofSchema_eq_ok h
  rw [hcatalog] at hm
  obtain ⟨e, he, rfl⟩ := List.mem_map.1 hm
  obtain ⟨f, hf, rfl⟩ := Catalog.mem_methods_ofFields he
  rcases List.mem_append.1 hty with hty | hty
  · exact hs.args hfs hf hty
  · rw [List.mem_singleton.1 hty]
    obtain ⟨t, ht, hfield⟩ := Schema.mem_rootFields hfs hf
    exact ⟨f.field.type, hs.fields t ht f.field hfield, rfl, rfl⟩

/-! ## The two sides of a catalog -/

/-- The query entry of a root field, whose result has the fields that a model has under its name. -/
def RootField.queryEntry (idx : Index) (m : Model) (f : RootField) : QueryEntry :=
  { name := f.field.name, kind := f.kind, args := idx.inputMap f.field.args,
    fields := ((m.types.get? (idx.describeRef f.field.type).gqlType).bind Descriptor.fields).getD [] }

/-- Both sides of a catalog are what is written for the root fields one after the other. -/
theorem Catalog.ofFields_eq (idx : Index) (m : Model) (fs : List RootField) :
    Catalog.ofFields idx m fs =
      { queries := OrderedMap.ofEntries (fs.map fun f => (f.field.name, f.queryEntry idx m))
        methods := OrderedMap.ofEntries (fs.map fun f => (f.field.name, f.method idx)) } := by
  induction fs using List.reverseRecOn with
  | nil => rfl
  | append_singleton fs f ih =>
    have hfields : ∀ n, ((m.get? n).map Descriptor.fieldList).getD [] =
        ((m.types.get? n).bind Descriptor.fields).getD [] := by
      intro n
      rw [Model.get?]
      cases m.types.get? n <;> rfl
    have hstep : Catalog.ofFields idx m (fs ++ [f]) = (Catalog.ofFields idx m fs).addField idx m f := by
      simp [Catalog.ofFields, List.foldl_append]
    rw [hstep, ih, List.map_append, List.map_append, List.map_singleton, List.map_singleton, OrderedMap.ofEntries_concat,
      OrderedMap.ofEntries_concat, Catalog.addField, hfields]
    rfl

/-- The last field of a name. -/
def lastField? (fs : List FieldDef) (n : String) : Option FieldDef := fs.reverse.find? fun f => decide (f.name = n)

/-- The last root field of a name is the last field of that name, and of the kind of the second root exactly if this has a
field of that name. -/
theorem RootField.last_ofRoots {queries mutations : List FieldDef} {n : String}
    (hn : n ∈ (queries ++ mutations).map FieldDef.name) :
    ∃ r, ((ofRoots queries mutations).reverse.find? fun r => decide (r.field.name = n)) = some r ∧
      lastField? (queries ++ mutations) n = some r.field ∧ r.field.name = n ∧
      (r.kind = .mutation ↔ n ∈ mutations.map FieldDef.name) := by
  have hlast : lastField? (queries ++ mutations) n =
      ((ofRoots queries mutations).reverse.find? fun r => decide (r.field.name = n)).map RootField.field := by
    rw [lastField?, ← map_field_ofRoots, ← List.map_reverse, List.find?_map]
    rfl
  have hsome : (lastField? (queries ++ mutations) n).isSome := by
    rw [lastField?, List.find?_isSome]
    obtain ⟨f, hf, hname⟩ := List.mem_map.1 hn
    exact ⟨f, List.mem_reverse.2 hf, decide_eq_true hname⟩
  cases hfind : (ofRoots queries mutations).reverse.find? fun r => decide (r.field.name = n) with
  | none =>
    rw [hlast, hfind] at hsome
    cases hsome
  | some r =>
    have hname := List.find?_some hfind
    refine ⟨r, rfl, by rw [hlast, hfind]; rfl, of_decide_eq_true hname, ?_⟩
    -- from the end, the fields of the second root come first
    rw [ofRoots, List.reverse_append, List.find?_append, ← List.map_reverse, ← List.map_reverse, List.find?_map,
      List.find?_map] at hfind
    cases hm : mutations.reverse.find? ((fun r : RootField => decide (r.field.name = n)) ∘ RootField.mk .mutation) with
    | some f =>
      rw [hm] at hfind
      cases hfind
      have hfn := List.find?_some hm
      have hmem : f ∈ mutations := List.mem_reverse.1 (List.mem_of_find?_eq_some hm)
      exact iff_of_true rfl (List.mem_map.2 ⟨f, hmem, of_decide_eq_true hfn⟩)
    | none =>
      rw [hm] at hfind
      obtain ⟨f, -, rfl⟩ := Option.map_eq_some_iff.1 hfind
      refine iff_of_false (fun h => by cases h) fun hmem => ?_
      obtain ⟨g, hg, hgn⟩ := List.mem_map.1 hmem
      exact List.find?_eq_none.1 hm g (List.mem_reverse.2 hg) (decide_eq_true hgn)

/-- What is written for root fields under their names has the names in the order of their first fields, and under each name
what is made of the last root field of that name. -/
theorem RootField.written {α : Type} (make : RootField → α) (rs : List RootField) :
    OrderedMap.keys (OrderedMap.ofEntries (rs.map fun r => (r.field.name, make r))) =
        ((rs.map RootField.field).map FieldDef.name).eraseDups ∧
      ∀ n, OrderedMap.get? (OrderedMap.ofEntries (rs.map fun r => (r.field.name, make r))) n =
        (rs.reverse.find? fun r => decide (r.field.name = n)).map make := by
  constructor
  · rw [OrderedMap.keys_ofEntries, List.map_map, List.map_map]
    rfl
  · intro n
    rw [OrderedMap.get?_ofEntries, ← List.map_reverse, List.find?_map, Option.map_map]
    rfl

/-- Root fields by name; of several fields of one name the last counts. -/
def RootField.byName (rs : List RootField) : OrderedMap RootField :=
  OrderedMap.ofEntries (rs.map fun r => (r.field.name, r))

theorem RootField.name_of_mem_byName {rs : List RootField} {e : String × RootField} (h : e ∈ byName rs) :
    e.2.field.name = e.1 := by
  obtain ⟨r, -, rfl⟩ := List.mem_map.1 (OrderedMap.mem_of_mem_ofEntries h)
  rfl

theorem RootField.distinct_byName (rs : List RootField) : OrderedMap.Distinct (byName rs) :=
  OrderedMap.distinct_ofEntries _

theorem RootField.keys_byName (queries mutations : List FieldDef) :
    OrderedMap.keys (byName (ofRoots queries mutations)) = ((queries ++ mutations).map FieldDef.name).eraseDups := by
  have hkeys := (written id (ofRoots queries mutations)).1
  rw [map_field_ofRoots] at hkeys
  exact hkeys

/-- Every name of a root field has the last field of that name. -/
theorem RootField.lastField?_of_mem_byName {queries mutations : List FieldDef} {e : String × RootField}
    (h : e ∈ byName (ofRoots queries mutations)) : lastField? (queries ++ mutations) e.1 = some e.2.field := by
  have hkey : e.1 ∈ OrderedMap.keys (byName (ofRoots queries mutations)) := List.mem_map_of_mem h
  rw [keys_byName, List.mem_eraseDups] at hkey
  obtain ⟨r, hr, hlast, -, -⟩ := last_ofRoots hkey
  have hget : OrderedMap.get? (byName (ofRoots queries mutations)) e.1 = some r :=
    ((written id _).2 e.1).trans (congrArg _ hr)
  rw [OrderedMap.get?_of_mem (distinct_byName _) h] at hget
  cases hget
  exact hlast

/-- The operations of a catalog are those of its root fields by name. -/
theorem Catalog.operations_perm (idx : Index) (m : Model) (rs : List RootField) :
    (Catalog.ofFields idx m rs).operations.Perm
      (List.map (fun e => { query := e.2.queryEntry idx m, method := e.2.method idx }) (RootField.byName rs)) := by
  have hwritten : ∀ {α : Type} (make : RootField → α), OrderedMap.ofEntries (rs.map fun r => (r.field.name, make r)) =
      List.map (fun e => (e.1, make e.2)) (RootField.byName rs) := by
    intro α make
    rw [RootField.byName, ← OrderedMap.ofEntries_map (fun _ r => make r), List.map_map]
    rfl
  rw [Catalog.ofFields_eq, Catalog.operations]
  refine (List.mergeSort_perm _ _).trans (List.Perm.of_eq ?_)
  rw [hwritten, hwritten, OrderedMap.values, List.map_map, List.filterMap_map]
  refine Eq.trans (List.filterMap_congr fun e he => ?_) (congrFun List.filterMap_eq_map _)
  have hget := OrderedMap.get?_of_mem (RootField.distinct_byName rs) he
  have hname : (e.2.queryEntry idx m).name = e.1 := RootField.name_of_mem_byName he
  simp only [Function.comp_apply, hname, OrderedMap.get?_map]
  rw [hget]
  rfl

/-- Marking types as required keeps their fields. -/
theorem Definition.fields_of_types {s : Schema} {ignored : IgnoreList} {d : Definition}
    (h : Definition.ofSchema s ignored = .ok d) (n : String) :
    (d.model.types.get? n).bind Descriptor.fields =
      ((Model.ofIndex s.index ignored).types.get? n).bind Descriptor.fields := by
  rw [(Definition.marks h).types]
  cases (Model.ofIndex s.index ignored).types.get? n <;> rfl

/-- The queries and the methods of a definition have the same names in the same order, that of the first root field of each
name. Under each name both describe the last root field of that name: they have its name, its arguments and its kind, which
is that of mutations exactly if the mutation root has a field of that name; the method has its type, and the query entry has
the fields that the finished model gives to that type. -/
theorem catalog_sides_agree (s : Schema) (ignored : IgnoreList) (d : Definition)
    (h : Definition.ofSchema s ignored = .ok d) :
    OrderedMap.keys d.catalog.queries = ((s.queryFields ++ s.mutationFields).map FieldDef.name).eraseDups ∧
    OrderedMap.keys d.catalog.methods = ((s.queryFields ++ s.mutationFields).map FieldDef.name).eraseDups ∧
    ∀ n ∈ (s.queryFields ++ s.mutationFields).map FieldDef.name, ∃ f q m,
      lastField? (s.queryFields ++ s.mutationFields) n = some f ∧
      OrderedMap.get? d.catalog.queries n = some q ∧ OrderedMap.get? d.catalog.methods n = some m ∧
      q.name = n ∧ m.name = n ∧
      q.kind = m.kind ∧ (m.kind = .mutation ↔ n ∈ s.mutationFields.map FieldDef.name) ∧
      q.args = m.args ∧ m.args = s.index.inputMap f.args ∧
      m.returnType = s.index.describeRef f.type ∧ m.isAsync = true ∧
      q.fields = ((d.model.types.get? m.returnType.gqlType).bind Descriptor.fields).getD [] := by
  obtain ⟨rs, hrs, hcatalog, -, -⟩ := Definition.ofSchema_eq_ok h
  have hroots : rs = RootField.ofRoots s.queryFields s.mutationFields := Schema.rootFields_eq_ok hrs
  subst hroots
  rw [Catalog.ofFields_eq] at hcatalog
  obtain ⟨hqkeys, hqueries⟩ := RootField.written
    (RootField.queryEntry s.index (Model.ofIndex s.index ignored)) (RootField.ofRoots s.queryFields s.mutationFields)
  obtain ⟨hmkeys, hmethods⟩ := RootField.written (RootField.method s.index)
    (RootField.ofRoots s.queryFields s.mutationFields)
  rw [RootField.map_field_ofRoots] at hqkeys hmkeys
  rw [hcatalog]
  refine ⟨hqkeys, hmkeys, fun n hn => ?_⟩
  obtain ⟨r, hr, hlast, hname, hkind⟩ := RootField.last_ofRoots hn
  refine ⟨r.field, _, _, hlast, (hqueries n).trans (congrArg _ hr), (hmethods n).trans (congrArg _ hr), hname, hname, rfl,
    hkind, rfl, rfl, rfl, rfl, ?_⟩
  rw [Definition.fields_of_types h]
  rfl

/-- A schema whose query root has two fields of one name and whose mutation root has a field that is named like a query. -/
def accountSchema : Schema where
  queryType := none
  mutationType := some "Mutation"
  subscriptionType := none
  types :=
    [⟨.object, "Query", none, some
        [⟨"user", none, [⟨"id", none, .named .scalar "ID", none⟩], .named .object "User"⟩,
          ⟨"renew", none, [], .named .scalar "Int"⟩,
          ⟨"user", none, [⟨"name", none, .nonNull (.named .scalar "String"), none⟩], .list (.named .object "User")⟩],
        none, none⟩,
      ⟨.object, "Mutation", none, some
        [⟨"close", none, [], .named .scalar "Boolean"⟩,
          ⟨"renew", none, [⟨"id", none, .named .scalar "ID", none⟩], .named .object "User"⟩], none, none⟩,
      ⟨.object, "User", none, some [⟨"id", none, [], .named .scalar "ID"⟩], none, none⟩]

/-- The mutation takes the place of the query of its name, and the second of two queries that of the first. -/
theorem account_sides_agree :
    ∃ d, Definition.ofSchema accountSchema ∅ = .ok d ∧
      OrderedMap.keys d.catalog.queries = ["user", "renew", "close"] ∧
      OrderedMap.keys d.catalog.methods = ["user", "renew", "close"] ∧
      (∃ q m, OrderedMap.get? d.catalog.queries "renew" = some q ∧ OrderedMap.get? d.catalog.methods "renew" = some m ∧
        q.kind = .mutation ∧ m.kind = .mutation ∧ OrderedMap.keys q.args = ["id"] ∧ OrderedMap.keys q.fields = ["id"]) ∧
      ∃ q m, OrderedMap.get? d.catalog.queries "user" = some q ∧ OrderedMap.get? d.catalog.methods "user" = some m ∧
        m.kind ≠ .mutation ∧ OrderedMap.keys m.args = ["name"] ∧ m.returnType.list = true := by
  obtain ⟨hqueries, hmethods, hall⟩ := catalog_sides_agree accountSchema ∅ _ rfl
  obtain ⟨f, q, m, hf, hq, hm, -, -, hkinds, hkind, hsides, hargs, htype, -, hfields⟩ := hall "renew" (by decide)
  obtain ⟨f', q', m', hf', hq', hm', -, -, -, hkind', -, hargs', htype', -⟩ := hall "user" (by decide)
  cases hf
  cases hf'
  have hmutation : m.kind = .mutation := hkind.2 (by decide)
  refine ⟨_, rfl, hqueries.trans (by decide), hmethods.trans (by decide),
    ⟨q, m, hq, hm, hkinds.trans hmutation, hmutation, ?_, ?_⟩, q', m', hq', hm', ?_, ?_, ?_⟩
  · rw [hsides, hargs]
    decide
  · rw [hfields, htype]
    decide
  · intro h
    exact absurd (hkind'.1 h) (by decide)
  · rw [hargs']
    decide
  · rw [htype']
    decide

end SdkLoom
