import SdkLoom.Definition.Codec
import SdkLoom.Proofs.Catalog
import SdkLoom.Proofs.DescriptorCodec

/-!
# Dumps

The dump of a definition is read back as the definition, except that models and inputs keep only the names of its types
(`Definition.ofDump_dump`). Definitions of schemas have no other names, and they are far from too deep
(`Definition.wellKeyed_ofSchema`). A definition that was read, from any text, can be dumped and read again, since its JSON
form is no deeper than the text was allowed to be (`Definition.sound_of_ofTree?`).
-/

namespace SdkLoom

open Json (Record)

variable {ε : Type}

/-! ## Operations -/

/-- No arguments and no fields have a key twice. -/
def QueryEntry.WellKeyed (q : QueryEntry) : Prop := Fields.WellKeyed q.args ∧ Fields.WellKeyed q.fields

/-- No arguments and no fields of the result have a key twice. -/
def Method.WellKeyed (m : Method) : Prop := Fields.WellKeyed m.args ∧ m.returnType.WellKeyed

theorem OperationKind.ofTree?_code (held : Bool) (kind : OperationKind) :
    OperationKind.ofTree? held (.str kind.code : Json) = some kind := by
  cases held <;> cases kind <;> rfl

theorem QueryEntry.ofTree?_toJson {q : QueryEntry} (h : q.WellKeyed) (held : Bool) :
    QueryEntry.ofTree? held q.toJson = some q := by
  obtain ⟨hargs, hfields⟩ := h
  simp [QueryEntry.toJson, QueryEntry.ofTree?, Json.Tree.record?, Record.ofMembers?, Record.required, Record.get?,
    List.lookup_cons, Json.Tree.string?, OperationKind.ofTree?_code, Fields.ofTree?_toJson hargs,
    Fields.ofTree?_toJson hfields]

theorem Method.ofTree?_toJson {m : Method} (h : m.WellKeyed) (held : Bool) : Method.ofTree? held m.toJson = some m := by
  obtain ⟨hargs, htype⟩ := h
  simp [Method.toJson, Method.ofTree?, Json.Tree.record?, Record.ofMembers?, Record.required, Record.get?, List.lookup_cons,
    Json.Tree.string?, Json.Tree.bool?, OperationKind.ofTree?_code, Fields.ofTree?_toJson hargs,
    Descriptor.ofTree?_toJson htype]

theorem QueryEntry.depth_toJson_le {q : QueryEntry} {n : Nat} (hargs : (Fields.toJson q.args).depth < n)
    (hfields : (Fields.toJson q.fields).depth < n) : q.toJson.depth ≤ n := by
  simp only [QueryEntry.toJson, Json.Tree.depth, Json.Tree.membersDepth]
  omega

theorem Method.depth_toJson_le {m : Method} {n : Nat} (hargs : (Fields.toJson m.args).depth < n)
    (htype : m.returnType.toJson.depth < n) : m.toJson.depth ≤ n := by
  simp only [Method.toJson, Json.Tree.depth, Json.Tree.membersDepth]
  omega

theorem QueryEntry.sound_of_ofTree? {held : Bool} {t : Json.Tree ε} {q : QueryEntry}
    (h : QueryEntry.ofTree? held t = some q) : q.WellKeyed ∧ q.toJson.depth ≤ t.depth := by
  simp only [QueryEntry.ofTree?, Option.bind_eq_bind, Option.bind_eq_some_iff, Option.pure_def, Option.some.injEq,
    Record.required] at h
  obtain ⟨r, hr, name, -, kind, -, args, ⟨a, ha, hargs⟩, fields, ⟨f, hf, hfields⟩, rfl⟩ := h
  obtain ⟨hkeyed, hd⟩ := Fields.sound_of_ofTree? hargs
  obtain ⟨hkeyed', hd'⟩ := Fields.sound_of_ofTree? hfields
  have hlt := Json.Tree.depth_lt_of_record? hr ha
  have hlt' := Json.Tree.depth_lt_of_record? hr hf
  refine ⟨⟨hkeyed, hkeyed'⟩, QueryEntry.depth_toJson_le ?_ ?_⟩
  · exact Nat.lt_of_le_of_lt hd hlt
  · exact Nat.lt_of_le_of_lt hd' hlt'

theorem Method.sound_of_ofTree? {held : Bool} {t : Json.Tree ε} {m : Method} (h : Method.ofTree? held t = some m) :
    m.WellKeyed ∧ m.toJson.depth ≤ t.depth := by
  simp only [Method.ofTree?, Option.bind_eq_bind, Option.bind_eq_some_iff, Option.pure_def, Option.some.injEq,
    Record.required] at h
  obtain ⟨r, hr, name, -, args, ⟨a, ha, hargs⟩, type, ⟨f, hf, htype⟩, isAsync, -, kind, -, rfl⟩ := h
  obtain ⟨hkeyed, hd⟩ := Fields.sound_of_ofTree? hargs
  obtain ⟨hkeyed', hd'⟩ := Descriptor.sound_of_ofTree? htype
  have hlt := Json.Tree.depth_lt_of_record? hr ha
  have hlt' := Json.Tree.depth_lt_of_record? hr hf
  refine ⟨⟨hkeyed, hkeyed'⟩, Method.depth_toJson_le ?_ ?_⟩
  · exact Nat.lt_of_le_of_lt hd hlt
  · exact Nat.lt_of_le_of_lt hd' hlt'

/-! ## Models -/

namespace Model

/-- The model whose models and inputs are only those that it has types of. -/
def restricted (m : Model) : Model :=
  { m with
    models := m.models.filter fun n _ => m.types.contains n
    inputs := m.inputs.filter fun n _ => m.types.contains n }

theorem ofNames_select (m : Model) (names : NameSet) :
    NameSet.ofNames ((m.select names).map Prod.fst) = names.filter fun n _ => m.types.contains n := by
  rw [keys_select, ← SortedMap.keys_filter, NameSet.ofNames_keys]

/-- Only the names of types count for a selection. -/
theorem select_filter (m : Model) (names : NameSet) :
    m.select (names.filter fun n _ => m.types.contains n) = m.select names := by
  rw [select, select, SortedMap.keys_filter, List.filterMap_filter]
  congr 1
  funext n
  rw [SortedMap.contains]
  cases m.types.get? n <;> rfl

/-- The JSON form does not show names without types. -/
theorem members_restricted (m : Model) : m.restricted.members = m.members := by
  have hselect : ∀ names, m.restricted.select names = m.select names := fun _ => rfl
  rw [members, members, hselect, hselect, restricted, select_filter, select_filter]

theorem ofRecord?_members {m : Model} (h : ∀ e ∈ m.types.entries, e.2.WellKeyed) :
    ofRecord? { fields := m.members, positional := false } = some m.restricted := by
  have htypes : Json.Tree.entries? Descriptor.ofTree? (.obj (Descriptor.membersJson m.types.toList)) =
      some m.types.toList := Fields.entries?_toJson h
  have hnames : ∀ names, NameSet.ofTree? (.obj (Descriptor.membersJson (m.select names)) : Json) =
      some (names.filter fun n _ => m.types.contains n) := by
    intro names
    rw [← ofNames_select, Descriptor.membersJson_eq_map, NameSet.ofTree?, Json.Tree.members?, Option.map_some, List.map_map]
    rfl
  have hignored : IgnoreList.ofTree? (IgnoreList.toJson m.ignored) = some m.ignored := by
    rw [IgnoreList.ofTree?, IgnoreList.toJson, Json.list?_ofStrings, Option.map_some, NameSet.ofNames_keys]
  simp [ofRecord?, members, Record.required, Record.get?, List.lookup_cons, htypes, hnames, hignored,
    SortedMap.ofList_toList, restricted]

/-- The descriptors of a model that is read have no key twice and are less deep than what it is read from. -/
theorem sound_of_ofRecord? {r : Record (Json.Tree ε)} {n : Nat} (hr : ∀ k v, r.get? k = some v → v.depth ≤ n) {m : Model}
    (h : ofRecord? r = some m) : ∀ e ∈ m.types.entries, e.2.WellKeyed ∧ e.2.toJson.depth < n := by
  simp only [ofRecord?, Record.required, Option.bind_eq_bind, Option.bind_eq_some_iff, Option.pure_def,
    Option.some.injEq] at h
  obtain ⟨types, ⟨t, ht, htypes⟩, models, -, inputs, -, ignored, -, rfl⟩ := h
  intro e he
  obtain ⟨hkeyed, hlt⟩ := Json.Tree.sound_of_entries? Descriptor.sound_of_ofTree? htypes e (SortedMap.mem_of_mem_ofList he)
  exact ⟨hkeyed, Nat.lt_of_lt_of_le hlt (hr _ t ht)⟩

end Model

/-! ## Catalogs -/

theorem Catalog.ofRecord?_members {c : Catalog} (hqueries : OrderedMap.Distinct c.queries)
    (hmethods : OrderedMap.Distinct c.methods) (hquery : ∀ e ∈ c.queries, e.2.WellKeyed)
    (hmethod : ∀ e ∈ c.methods, e.2.WellKeyed) :
    Catalog.ofRecord? true { fields := c.members, positional := false } = some c := by
  have hq : Json.Tree.entries? (QueryEntry.ofTree? true) (.obj (List.map (fun e => (e.1, e.2.toJson)) c.queries)) =
      some c.queries := Json.Tree.entries?_obj_map fun e he => QueryEntry.ofTree?_toJson (hquery e he) true
  have hm : Json.Tree.entries? (Method.ofTree? true) (.obj (List.map (fun e => (e.1, e.2.toJson)) c.methods)) =
      some c.methods := Json.Tree.entries?_obj_map fun e he => Method.ofTree?_toJson (hmethod e he) true
  simp [Catalog.ofRecord?, Catalog.members, Record.required, Record.get?, List.lookup_cons, hq, hm,
    OrderedMap.ofEntries_of_distinct hqueries, OrderedMap.ofEntries_of_distinct hmethods]

/-- The operations of a catalog that is read have no key twice and are less deep than what it is read from. -/
theorem Catalog.sound_of_ofRecord? {held : Bool} {r : Record (Json.Tree ε)} {n : Nat}
    (hr : ∀ k v, r.get? k = some v → v.depth ≤ n) {c : Catalog} (h : Catalog.ofRecord? held r = some c) :
    (OrderedMap.Distinct c.queries ∧ ∀ e ∈ c.queries, e.2.WellKeyed ∧ e.2.toJson.depth < n) ∧
      OrderedMap.Distinct c.methods ∧ ∀ e ∈ c.methods, e.2.WellKeyed ∧ e.2.toJson.depth < n := by
  simp only [Catalog.ofRecord?, Record.required, Option.bind_eq_bind, Option.bind_eq_some_iff, Option.pure_def,
    Option.some.injEq] at h
  obtain ⟨queries, ⟨t, ht, hqueries⟩, methods, ⟨t', ht', hmethods⟩, rfl⟩ := h
  refine ⟨⟨OrderedMap.distinct_ofEntries _, fun e he => ?_⟩, OrderedMap.distinct_ofEntries _, fun e he => ?_⟩
  · obtain ⟨hkeyed, hlt⟩ :=
      Json.Tree.sound_of_entries? QueryEntry.sound_of_ofTree? hqueries e (OrderedMap.mem_of_mem_ofEntries he)
    exact ⟨hkeyed, Nat.lt_of_lt_of_le hlt (hr _ t ht)⟩
  · obtain ⟨hkeyed, hlt⟩ :=
      Json.Tree.sound_of_entries? Method.sound_of_ofTree? hmethods e (OrderedMap.mem_of_mem_ofEntries he)
    exact ⟨hkeyed, Nat.lt_of_lt_of_le hlt (hr _ t' ht')⟩

/-! ## Definitions -/

namespace Definition

/-- No map of a definition has a key twice. -/
structure WellKeyed (d : Definition) : Prop where
  types : ∀ e ∈ d.model.types.entries, e.2.WellKeyed
  queries : OrderedMap.Distinct d.catalog.queries
  methods : OrderedMap.Distinct d.catalog.methods
  query : ∀ e ∈ d.catalog.queries, e.2.WellKeyed
  method : ∀ e ∈ d.catalog.methods, e.2.WellKeyed

/-- The definition whose models and inputs are only those that it has types of. -/
def restricted (d : Definition) : Definition := { d with model := d.model.restricted }

theorem dump_restricted (d : Definition) : d.restricted.dump = d.dump := by
  rw [dump, dump, toJson, toJson]
  simp only [restricted, Model.members_restricted]

/-- The JSON form of a definition is read as the definition without the names that it has no types of. -/
theorem ofTree?_toJson {d : Definition} (h : d.WellKeyed) : ofTree? (d.toJson.lift : Json.Tree ε) = some d.restricted := by
  have hrequired : Record.ofMembers? [requiredMember] (Json.Tree.liftMembers (ε := ε)
      (d.model.members ++ d.catalog.members ++ [(requiredMember, d.required.requiredJson)])) =
        some { fields := [(requiredMember, d.required.requiredJson.lift)], positional := false } := by
    simp [Record.ofMembers?, Json.Tree.liftMembers, Model.members, Catalog.members, requiredMember]
  have hothers : (Json.Tree.liftMembers (ε := ε)
      (d.model.members ++ d.catalog.members ++ [(requiredMember, d.required.requiredJson)])).filter
        (fun m => m.1 != requiredMember) = Json.Tree.liftMembers (d.model.members ++ d.catalog.members) := by
    have hfilter : (d.model.members ++ d.catalog.members ++ [(requiredMember, d.required.requiredJson)]).filter
        (fun m => m.1 != requiredMember) = d.model.members ++ d.catalog.members := rfl
    rw [Json.Tree.liftMembers_eq_map, Json.Tree.liftMembers_eq_map, List.filter_map]
    exact congrArg _ hfilter
  have hmodel : Record.ofMembers? Model.fieldNames (d.model.members ++ d.catalog.members) =
      some { fields := d.model.members, positional := false } := by
    simp [Record.ofMembers?, Model.members, Catalog.members, Model.fieldNames]
  have hcatalog : Record.ofMembers? Catalog.fieldNames (d.model.members ++ d.catalog.members) =
      some { fields := d.catalog.members, positional := false } := by
    simp [Record.ofMembers?, Model.members, Catalog.members, Catalog.fieldNames]
  have hnames : NameSet.ofTree? (d.required.requiredJson.lift : Json.Tree ε) = some d.required := by
    rw [NameSet.requiredJson, Json.Tree.lift, NameSet.ofTree?, Json.Tree.members?, Option.map_some,
      Json.Tree.liftMembers_eq_map, List.map_map, List.map_map]
    exact congrArg some ((congrArg NameSet.ofNames (List.map_id _)).trans (NameSet.ofNames_keys d.required))
  have hread : Record.required
      { fields := [(requiredMember, (d.required.requiredJson.lift : Json.Tree ε))], positional := false }
      requiredMember NameSet.ofTree? = some d.required := by
    rw [Record.required, Record.get?, List.lookup_cons_self, Option.bind_some, hnames]
  rw [toJson, Json.Tree.lift, ofTree?]
  generalize Json.Tree.liftMembers (ε := ε)
    (d.model.members ++ d.catalog.members ++ [(requiredMember, d.required.requiredJson)]) = ms at hrequired hothers ⊢
  rw [Json.Tree.members?, Option.bind_eq_bind, Option.bind_some, hrequired]
  simp only [Option.bind_eq_bind, Option.bind_some, hread, hothers, Json.Tree.faultlessMembers?_lift, hmodel, hcatalog,
    Model.ofRecord?_members h.types, Catalog.ofRecord?_members h.queries h.methods h.query h.method]
  rfl

/-! ### Depth -/

/-- The JSON form of a definition is two levels deeper than its parts. -/
theorem depth_toJson_le {d : Definition} {n : Nat} (hn : 1 ≤ n) (htypes : ∀ e ∈ d.model.types.entries, e.2.toJson.depth ≤ n)
    (hqueries : ∀ e ∈ d.catalog.queries, e.2.toJson.depth ≤ n) (hmethods : ∀ e ∈ d.catalog.methods, e.2.toJson.depth ≤ n) :
    d.toJson.depth ≤ n + 2 := by
  have hselect : ∀ names, (Fields.toJson (d.model.select names)).depth ≤ n + 1 := by
    intro names
    rw [Fields.depth_toJson_le_iff]
    exact fun e he => htypes e (d.model.types.get?_eq_some_iff.1 ((d.model.mem_select_iff names e).1 he).2)
  have hobj : ∀ {ms : List (String × Json)}, (∀ m ∈ ms, m.2.depth ≤ n) → (Json.Tree.obj ms).depth ≤ n + 1 := by
    intro ms h
    rw [Json.Tree.depth, Nat.succ_le_succ_iff, Json.Tree.membersDepth_le_iff]
    exact h
  have hignored : (IgnoreList.toJson d.model.ignored).depth ≤ n + 1 := by
    rw [IgnoreList.toJson, Json.ofStrings, Json.Tree.depth, Nat.succ_le_succ_iff, Json.Tree.itemsDepth_le_iff]
    exact List.forall_mem_map.2 fun _ _ => Nat.zero_le n
  rw [toJson, Json.Tree.depth, Nat.succ_le_succ_iff, Json.Tree.membersDepth_le_iff]
  simp only [Model.members, Catalog.members, List.cons_append, List.nil_append, List.forall_mem_cons]
  refine ⟨(Fields.depth_toJson_le_iff _ n).2 htypes, hselect _, hselect _, hignored, hobj (List.forall_mem_map.2 hqueries),
    hobj (List.forall_mem_map.2 hmethods), hobj (List.forall_mem_map.2 fun _ _ => hn), List.forall_mem_nil _⟩

/-- What is read as a definition has no key twice, and its JSON form is no deeper than what it was read from, or than what
its required names need. -/
theorem sound_of_ofTree? {t : Json.Tree ε} {d : Definition} (h : ofTree? t = some d) :
    d.WellKeyed ∧ d.toJson.depth ≤ max t.depth 3 := by
  simp only [ofTree?, Option.bind_eq_bind, Option.bind_eq_some_iff, Option.pure_def, Option.some.injEq] at h
  obtain ⟨ms, hms, -, -, required, -, others, hothers, model, ⟨r, hr, hmodel⟩, catalog, ⟨r', hr', hcatalog⟩, rfl⟩ := h
  have ht : t.depth = Json.Tree.membersDepth ms + 1 := by
    cases t with
    | obj members =>
      cases hms
      rfl
    | _ => cases hms
  have hothers : ∀ m ∈ others, m.2.depth ≤ Json.Tree.membersDepth ms := by
    rw [← Json.Tree.membersDepth_le_iff, Json.Tree.depth_of_faultlessMembers? hothers, Json.Tree.membersDepth_le_iff]
    exact fun m hm => Json.Tree.depth_le_membersDepth (List.mem_filter.1 hm).1
  have htypes := Model.sound_of_ofRecord? (fun k v hv => hothers _ (Record.mem_of_ofMembers? hr hv)) hmodel
  obtain ⟨⟨hqkeys, hqueries⟩, hmkeys, hmethods⟩ :=
    Catalog.sound_of_ofRecord? (fun k v hv => hothers _ (Record.mem_of_ofMembers? hr' hv)) hcatalog
  refine ⟨{ types := fun e he => (htypes e he).1, queries := hqkeys, methods := hmkeys,
            query := fun e he => (hqueries e he).1, method := fun e he => (hmethods e he).1 }, ?_⟩
  have hle : max (Json.Tree.membersDepth ms - 1) 1 + 2 ≤ max t.depth 3 := by omega
  refine Nat.le_trans (depth_toJson_le (by omega) (fun e he => ?_) (fun e he => ?_) fun e he => ?_) hle
  · have := (htypes e he).2
    omega
  · have := (hqueries e he).2
    omega
  · have := (hmethods e he).2
    omega

/-! ### Numbers -/

theorem numberFree_toJson (d : Definition) : d.toJson.numberFree = true := by
  have hfields : ∀ fs : Fields, (Fields.toJson fs).numberFree = true := Descriptor.numberFree_membersJson
  have hobj : ∀ {ms : List (String × Json)}, (∀ m ∈ ms, m.2.numberFree = true) → Json.numberFree (.obj ms) = true :=
    fun h => (Json.numberFreeMembers_iff _).2 h
  have hquery : ∀ q : QueryEntry, q.toJson.numberFree = true := by
    intro q
    simp [QueryEntry.toJson, Json.numberFree, Json.numberFreeMembers, hfields]
  have hmethod : ∀ m : Method, m.toJson.numberFree = true := by
    intro m
    simp [Method.toJson, Json.numberFree, Json.numberFreeMembers, hfields, Descriptor.numberFree_toJson]
  have hignored : (IgnoreList.toJson d.model.ignored).numberFree = true :=
    (Json.numberFreeItems_iff _).2 (List.forall_mem_map.2 fun _ _ => rfl)
  rw [toJson]
  refine hobj ?_
  simp only [Model.members, Catalog.members, List.cons_append, List.nil_append, List.forall_mem_cons]
  exact ⟨hfields _, hfields _, hfields _, hignored, hobj (List.forall_mem_map.2 fun e _ => hquery e.2),
    hobj (List.forall_mem_map.2 fun e _ => hmethod e.2), hobj (List.forall_mem_map.2 fun _ _ => rfl), List.forall_mem_nil _⟩

/-- The dump of a definition that is not nested too deep is read as the definition without the names that it has no types
of. -/
theorem ofDump_dump {d : Definition} (h : d.WellKeyed) (hdepth : d.toJson.depth ≤ Json.maxDepth) :
    ofDump d.dump = .ok d.restricted := by
  rw [ofDump, dump, Json.read_pretty d.numberFree_toJson hdepth, Option.bind_some, ofTree?_toJson h]

end Definition

/-! ## Definitions of schemas -/

/-- Distinct keys and descriptors without fields. -/
def Fields.Shallow (fs : Fields) : Prop := OrderedMap.Distinct fs ∧ ∀ e ∈ fs, e.2.fields = none

theorem Descriptor.depth_of_fields_eq_none {d : Descriptor} (h : d.fields = none) : d.toJson.depth ≤ 2 := by
  refine Descriptor.depth_toJson_le (fun _ _ => Nat.le_refl 1) fun fs hfs => ?_
  rw [h] at hfs
  cases hfs

theorem Descriptor.wellKeyed_of_fields_eq_none {d : Descriptor} (h : d.fields = none) : d.WellKeyed := by
  refine d.wellKeyed_iff.2 fun fs hfs => ?_
  rw [h] at hfs
  cases hfs

theorem Fields.Shallow.wellKeyed {fs : Fields} (h : Fields.Shallow fs) : Fields.WellKeyed fs :=
  ⟨h.1, fun e he => Descriptor.wellKeyed_of_fields_eq_none (h.2 e he)⟩

theorem Fields.Shallow.depth_le {fs : Fields} (h : Fields.Shallow fs) : (Fields.toJson fs).depth ≤ 3 :=
  (Fields.depth_toJson_le_iff fs 2).2 fun e he => Descriptor.depth_of_fields_eq_none (h.2 e he)

/-- Arguments are described one level deep. -/
theorem Index.shallow_inputMap (idx : Index) (vs : List InputValue) : Fields.Shallow (idx.inputMap vs) := by
  refine ⟨OrderedMap.distinct_ofEntries _, fun e he => ?_⟩
  obtain ⟨v, -, rfl⟩ := List.mem_map.1 (OrderedMap.mem_of_mem_ofEntries he)
  exact (idx.describeRef_core v.type).2.2

/-- Fields are described one level deep. -/
theorem Index.shallow_describeRefs? (idx : Index) (t : TypeDef) : Fields.Shallow ((idx.describeRefs? t.refs).getD []) := by
  rw [idx.describeRefs?_getD]
  constructor
  · rw [OrderedMap.Distinct, OrderedMap.keys, List.map_map]
    exact t.distinct_refs
  · exact List.forall_mem_map.2 fun e _ => (idx.describeRef_core e.2).2.2

namespace Definition

variable {s : Schema} {ignored : IgnoreList} {d : Definition}

/-- The types of the definition of a schema are described one level deep. -/
theorem shallow_of_types (h : ofSchema s ignored = .ok d) (n : String) :
    Fields.Shallow (((d.model.types.get? n).bind Descriptor.fields).getD []) := by
  cases hty : d.model.types.get? n with
  | none => exact ⟨.nil, fun e he => absurd he List.not_mem_nil⟩
  | some ty =>
    obtain ⟨t, -, -, hfields⟩ := types_get?_eq_some h hty
    rw [Option.bind_some, hfields]
    exact s.index.shallow_describeRefs? t

theorem wellKeyed_ofSchema (h : ofSchema s ignored = .ok d) : d.WellKeyed ∧ d.toJson.depth ≤ 6 := by
  obtain ⟨fs, -, hcatalog, -, -⟩ := ofSchema_eq_ok h
  rw [Catalog.ofFields_eq] at hcatalog
  have htypes : ∀ e ∈ d.model.types.entries, ∀ fs, e.2.fields = some fs → Fields.Shallow fs := by
    intro e he fs hfs
    have hshallow := shallow_of_types h e.1
    rw [d.model.types.get?_eq_some_iff.2 he, Option.bind_some, hfs] at hshallow
    exact hshallow
  have hquery : ∀ e ∈ d.catalog.queries, Fields.Shallow e.2.args ∧ Fields.Shallow e.2.fields := by
    intro e he
    rw [hcatalog] at he
    obtain ⟨f, -, rfl⟩ := List.mem_map.1 (OrderedMap.mem_of_mem_ofEntries he)
    refine ⟨s.index.shallow_inputMap f.field.args, ?_⟩
    rw [RootField.queryEntry, ← fields_of_types h]
    exact shallow_of_types h _
  have hmethod : ∀ e ∈ d.catalog.methods, Fields.Shallow e.2.args ∧ e.2.returnType.fields = none := by
    intro e he
    rw [hcatalog] at he
    obtain ⟨f, -, rfl⟩ := List.mem_map.1 (OrderedMap.mem_of_mem_ofEntries he)
    exact ⟨s.index.shallow_inputMap f.field.args, (s.index.describeRef_core f.field.type).2.2⟩
  refine ⟨{ types := ?_, queries := ?_, methods := ?_, query := ?_, method := ?_ }, depth_toJson_le (n := 4) ?_ ?_ ?_ ?_⟩
  · exact fun e he => e.2.wellKeyed_iff.2 fun fs hfs => (htypes e he fs hfs).wellKeyed
  · rw [hcatalog]
    exact OrderedMap.distinct_ofEntries _
  · rw [hcatalog]
    exact OrderedMap.distinct_ofEntries _
  · exact fun e he => ⟨(hquery e he).1.wellKeyed, (hquery e he).2.wellKeyed⟩
  · exact fun e he => ⟨(hmethod e he).1.wellKeyed, Descriptor.wellKeyed_of_fields_eq_none (hmethod e he).2⟩
  · decide
  · exact fun e he => Descriptor.depth_toJson_le (fun _ _ => by decide) fun fs hfs => (htypes e he fs hfs).depth_le
  · intro e he
    have hargs := (hquery e he).1.depth_le
    have hfields := (hquery e he).2.depth_le
    exact QueryEntry.depth_toJson_le (by omega) (by omega)
  · intro e he
    have hargs := (hmethod e he).1.depth_le
    have htype := Descriptor.depth_of_fields_eq_none (hmethod e he).2
    exact Method.depth_toJson_le (by omega) (by omega)

/-- All models and inputs of the definition of a schema are names of its types. -/
theorem restricted_ofSchema (h : ofSchema s ignored = .ok d) : d.restricted = d := by
  have hmodels : ∀ n ∈ d.model.models.keys, d.model.types.contains n = true := by
    intro n hn
    rw [SortedMap.mem_keys_iff, contains_models h, Bool.and_eq_true] at hn
    rw [contains_types h]
    exact hn.2
  have hinputs : ∀ n ∈ d.model.inputs.keys, d.model.types.contains n = true := by
    intro n hn
    rw [SortedMap.mem_keys_iff, contains_inputs h, Bool.and_eq_true] at hn
    rw [contains_types h]
    exact hn.2
  rw [restricted, Model.restricted, SortedMap.filter_eq_self hmodels, SortedMap.filter_eq_self hinputs]

end Definition

/-- A definition is read back from its dump, up to the names of models and inputs that it has no types of, as long as the
dump is not nested too deep. So the definition of a schema is what its dump is read as, and reading and dumping what was
read from any text changes nothing any more. -/
theorem dump_round_trip :
    (∀ d : Definition, d.WellKeyed → d.toJson.depth ≤ Json.maxDepth → Definition.ofDump d.dump = .ok d.restricted) ∧
    (∀ (s : Schema) (ignored : IgnoreList) (d : Definition), Definition.ofSchema s ignored = .ok d →
      Definition.ofDump d.dump = .ok d) ∧
    ∀ (text : String) (d : Definition), Definition.ofDump text = .ok d →
      ∃ d', Definition.ofDump d.dump = .ok d' ∧ d'.dump = d.dump := by
  refine ⟨fun d h hdepth => Definition.ofDump_dump h hdepth, fun s ignored d h => ?_, fun text d h => ?_⟩
  · obtain ⟨hkeyed, hdepth⟩ := Definition.wellKeyed_ofSchema h
    rw [Definition.ofDump_dump hkeyed (Nat.le_trans hdepth (by decide)), Definition.restricted_ofSchema h]
  · rw [Definition.ofDump] at h
    split at h
    next d' hread =>
      cases h
      obtain ⟨t, ht, htree⟩ := Option.bind_eq_some_iff.1 hread
      obtain ⟨hkeyed, hdepth⟩ := Definition.sound_of_ofTree? htree
      have hmax : d.toJson.depth ≤ Json.maxDepth :=
        Nat.le_trans hdepth (Nat.max_le.2 ⟨Json.depth_of_read ht, by decide⟩)
      exact ⟨d.restricted, Definition.ofDump_dump hkeyed hmax, d.dump_restricted⟩
    next => cases h

/-- A definition with fields inside of fields, a model and an input that it has no types of, and an operation. -/
def atticDefinition : Definition where
  model :=
    { types := SortedMap.ofList [("Room", { Descriptor.ofLeaf "Room" .object with
        fields := some [("walls", { Descriptor.ofLeaf "Wall" .object with
          fields := some [("paint", .ofLeaf "Paint" (.enum ["RED", "GREEN"])),
            ("area", .ofLeaf "Int" (.primitive .numeric))] }),
          ("door", .ofLeaf "Door" .object)] })]
      models := NameSet.ofNames ["Room", "Cellar"]
      inputs := NameSet.ofNames ["CellarInput"]
      ignored := NameSet.ofNames ["Int"] }
  catalog :=
    { queries := [("room", ⟨"room", .query, [("floor", .ofLeaf "Int" (.primitive .numeric))], []⟩)]
      methods := [("room", ⟨"room", [("floor", .ofLeaf "Int" (.primitive .numeric))], .ofLeaf "Room" .object, false,
        .query⟩)] }
  required := NameSet.ofNames ["Room"]

/-- The dump loses the names without types and nothing else. -/
theorem attic_round_trip :
    atticDefinition.WellKeyed ∧ atticDefinition.toJson.depth ≤ Json.maxDepth ∧
      Definition.ofDump atticDefinition.dump = .ok atticDefinition.restricted ∧
      atticDefinition.restricted.model.models.keys = ["Room"] ∧ atticDefinition.restricted.model.inputs.keys = [] ∧
      (∃ d', Definition.ofDump atticDefinition.restricted.dump = .ok d' ∧ d'.dump = atticDefinition.restricted.dump) ∧
      ∃ d, Definition.ofSchema librarySchema ∅ = .ok d ∧ Definition.ofDump d.dump = .ok d := by
  obtain ⟨hload, hschema, hagain⟩ := dump_round_trip
  have hleaf : ∀ name leaf, (Descriptor.ofLeaf name leaf).WellKeyed := fun _ _ =>
    Descriptor.wellKeyed_of_fields_eq_none rfl
  have hargs : Fields.WellKeyed [("floor", .ofLeaf "Int" (.primitive .numeric))] :=
    ⟨List.nodup_cons.2 ⟨List.not_mem_nil, .nil⟩, List.forall_mem_singleton.2 (hleaf _ _)⟩
  have hkeyed : atticDefinition.WellKeyed := by
    refine { types := fun e he => ?_, queries := List.nodup_cons.2 ⟨List.not_mem_nil, .nil⟩,
             methods := List.nodup_cons.2 ⟨List.not_mem_nil, .nil⟩,
             query := List.forall_mem_singleton.2 ⟨hargs, .nil, List.forall_mem_nil _⟩,
             method := List.forall_mem_singleton.2 ⟨hargs, hleaf _ _⟩ }
    rw [List.mem_singleton.1 (SortedMap.mem_of_mem_ofList he)]
    refine (Descriptor.wellKeyed_iff _).2 fun fs hfs => ?_
    cases hfs
    refine ⟨by unfold OrderedMap.Distinct; decide, List.forall_mem_cons.2 ⟨?_, List.forall_mem_singleton.2 (hleaf _ _)⟩⟩
    refine (Descriptor.wellKeyed_iff _).2 fun fs hfs => ?_
    cases hfs
    exact ⟨by unfold OrderedMap.Distinct; decide, List.forall_mem_cons.2 ⟨hleaf _ _, List.forall_mem_singleton.2 (hleaf _ _)⟩⟩
  have hdepth : atticDefinition.toJson.depth ≤ Json.maxDepth := by decide
  have hread := hload atticDefinition hkeyed hdepth
  refine ⟨hkeyed, hdepth, hread, by decide, by decide, hagain _ _ hread, _, rfl, hschema librarySchema ∅ _ rfl⟩

end SdkLoom
