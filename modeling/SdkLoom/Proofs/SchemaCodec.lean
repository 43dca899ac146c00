import SdkLoom.Proofs.JsonDecode
import SdkLoom.Schema.Codec

/-!
# Reading written schemas

A schema that is written as JSON, alone or in a response, is read back as it was, as long as the document is not nested too
deep. A schema that was read, from any text, is written no deeper than that text was, so it can be written and read again
(`introspection_round_trip`).
-/

namespace SdkLoom

open Json (Record)

variable {ε α β : Type}

/-! ## Parts of documents -/

namespace Json

/-- A string or null is read back. -/
@[simp] theorem nullable?_ofString? (s : Option String) : Tree.nullable? Tree.string? (ofString? s : Tree ε) = some s := by
  cases s <;> rfl

@[simp] theorem depth_ofString? (s : Option String) : (ofString? s : Tree ε).depth = 0 := by
  cases s <;> rfl

@[simp] theorem numberFree_ofString? (s : Option String) : numberFree (ofString? s) = true := by
  cases s <;> rfl

end Json

section Lists

variable {f : Json → Option α} {g : α → Json} (h : ∀ a, f (g a) = some a)
include h

/-- A list is read back if its items are. -/
theorem Json.list?_map (l : List α) : Json.Tree.list? f (.arr (l.map g)) = some l :=
  mapM_eq_some_iff.2 (List.forall₂_map_left_iff.2 (List.forall₂_same.2 fun a _ => h a))

theorem nullable?_encodeList? (l : Option (List α)) : Json.Tree.nullable? (Json.Tree.list? f) (encodeList? g l) = some l := by
  cases l with
  | none => rfl
  | some l => exact congrArg (Option.map some) (Json.list?_map h l)

end Lists

namespace Json.Record

/-- The record whose fields have changed values. -/
def mapValues (f : α → β) (r : Record α) : Record β := ⟨r.fields.map fun e => (e.1, f e.2), r.positional⟩

theorem get?_mapValues (f : α → β) (r : Record α) (n : String) : (r.mapValues f).get? n = (r.get? n).map f :=
  lookup_map_snd f r.fields n

theorem ofMembers?_map (f : α → β) (names : List String) (members : List (String × α)) :
    ofMembers? names (members.map fun m => (m.1, f m.2)) = (ofMembers? names members).map (mapValues f) := by
  have hknown : (members.map fun m => (m.1, f m.2)).filter (fun m => names.contains m.1) =
      (members.filter fun m => names.contains m.1).map fun m => (m.1, f m.2) := List.filter_map
  have hkeys : ((members.filter fun m => names.contains m.1).map fun m => (m.1, f m.2)).map Prod.fst =
      (members.filter fun m => names.contains m.1).map Prod.fst := List.map_map
  rw [ofMembers?, ofMembers?, hknown, hkeys]
  split <;> rfl

theorem ofItems?_map (f : α → β) (names : List String) (items : List α) :
    ofItems? names (items.map f) = (ofItems? names items).map (mapValues f) := by
  rw [ofItems?, ofItems?, List.length_map]
  split
  · rw [List.zip_map_right]
    rfl
  · rfl

/-- A field that may be left out has its default or what is read from the value given for it. -/
theorem of_defaulted {r : Record α} {n : String} {f : α → Option β} {default b : β}
    (h : r.defaulted n f default = some b) : b = default ∨ ∃ v, r.get? n = some v ∧ f v = some b := by
  unfold defaulted at h
  split at h
  next v hv => exact .inr ⟨v, hv, h⟩
  next => exact .inl (Option.some.inj h).symm

/-- A field that may be left out and is there was given. -/
theorem of_optional_some {r : Record α} {n : String} {f : α → Option (Option β)} {b : β}
    (h : r.optional n f = some (some b)) : ∃ v, r.get? n = some v ∧ f v = some (some b) := by
  unfold optional at h
  split at h
  next v hv => exact ⟨v, hv, h⟩
  next => split at h <;> cases h

end Json.Record

/-! ## References -/

theorem TypeKind.ofTree?_code (kind : TypeKind) : TypeKind.ofTree? (.str kind.code : Json) = some kind := by
  cases kind <;> rfl

namespace TypeRef

theorem readMembers_eq_map (members : List (String × Json.Tree ε)) :
    readMembers members = members.map fun m => (m.1, m.2, m.2.nullable? ofTree?) := by
  induction members with
  | nil => rfl
  | cons m members ih =>
    obtain ⟨k, t⟩ := m
    rw [readMembers, ih]
    cases t <;> rfl

theorem readItems_eq_map (items : List (Json.Tree ε)) :
    readItems items = items.map fun t => (t, t.nullable? ofTree?) := by
  induction items with
  | nil => rfl
  | cons t items ih =>
    rw [readItems, ih]
    cases t <;> rfl

/-- A reference from its fields. -/
def ofFields? (r : Record (Json.Tree ε)) : Option TypeRef := do
  let kind ← r.required "kind" TypeKind.ofTree?
  let name ← r.defaulted "name" (Json.Tree.nullable? Json.Tree.string?) none
  let ofType ← r.defaulted "ofType" (Json.Tree.nullable? ofTree?) none
  return ⟨kind, name, ofType⟩

/-- The readings that the fields come with are those that they are asked for. -/
theorem ofRecord?_mapValues (r : Record (Json.Tree ε)) :
    ofRecord? (r.mapValues fun t => (t, t.nullable? ofTree?)) = ofFields? r := by
  simp only [ofRecord?, ofFields?, Record.required, Record.defaulted, Record.get?_mapValues]
  cases r.get? "kind" <;> cases r.get? "name" <;> cases r.get? "ofType" <;> rfl

/-- A reference is a record of three fields, of which the last is null or a reference. -/
theorem ofTree?_eq (t : Json.Tree ε) : ofTree? t = (t.record? fieldNames).bind ofFields? := by
  have hbind : ∀ r? : Option (Record (Json.Tree ε)),
      (r?.map (Record.mapValues fun t => (t, t.nullable? ofTree?))).bind ofRecord? = r?.bind ofFields? := by
    rintro (_ | r)
    · rfl
    · exact ofRecord?_mapValues r
  cases t with
  | obj members =>
    have hmap := Record.ofMembers?_map (fun t : Json.Tree ε => (t, t.nullable? ofTree?)) fieldNames members
    rw [ofTree?, readMembers_eq_map, hmap, hbind, Json.Tree.record?]
  | arr items => rw [ofTree?, readItems_eq_map, Record.ofItems?_map, hbind, Json.Tree.record?]
  | _ => rfl

/-- What a reference wraps, in JSON form. -/
def innerJson (r : TypeRef) : Json := (r.ofType.map toJson).getD .null

theorem toJson_eq (r : TypeRef) :
    r.toJson = .obj [("kind", .str r.kind.code), ("name", Json.ofString? r.name), ("ofType", r.innerJson)] := by
  obtain ⟨kind, name, ofType⟩ := r
  cases ofType <;> rfl

/-- A reference is read back, if what it wraps is. -/
theorem ofTree?_toJson_of_inner {r : TypeRef} (h : Json.Tree.nullable? ofTree? r.innerJson = some r.ofType) :
    ofTree? r.toJson = some r := by
  obtain ⟨kind, name, ofType⟩ := r
  have hkind := TypeKind.ofTree?_code kind
  rw [ofTree?_eq, toJson_eq]
  simp [Json.Tree.record?, fieldNames, ofFields?, Record.ofMembers?, Record.required, Record.defaulted, Record.get?,
    List.lookup_cons, hkind, h]

theorem ofTree?_toJson : ∀ r : TypeRef, ofTree? r.toJson = some r
  | ⟨kind, name, none⟩ => ofTree?_toJson_of_inner rfl
  | ⟨kind, name, some inner⟩ => by
    have hinner : Json.Tree.nullable? ofTree? inner.toJson = some (some inner) := by
      have hread := ofTree?_toJson inner
      rw [toJson_eq] at hread ⊢
      exact congrArg (Option.map some) hread
    exact ofTree?_toJson_of_inner hinner

end TypeRef

/-! ## Definitions -/

theorem InputValue.ofTree?_toJson (v : InputValue) : InputValue.ofTree? v.toJson = some v := by
  simp [InputValue.toJson, InputValue.ofTree?, Json.Tree.record?, Record.ofMembers?, Record.required, Record.defaulted,
    Record.get?, List.lookup_cons, Json.Tree.string?, TypeRef.ofTree?_toJson]

theorem FieldDef.ofTree?_toJson (f : FieldDef) : FieldDef.ofTree? f.toJson = some f := by
  simp [FieldDef.toJson, FieldDef.ofTree?, Json.Tree.record?, Record.ofMembers?, Record.required, Record.defaulted,
    Record.get?, List.lookup_cons, Json.Tree.string?, TypeRef.ofTree?_toJson, Json.list?_map InputValue.ofTree?_toJson]

theorem EnumValue.ofTree?_toJson (v : EnumValue) : EnumValue.ofTree? v.toJson = some v := by
  simp [EnumValue.toJson, EnumValue.ofTree?, Json.Tree.record?, Record.ofMembers?, Record.required, Record.defaulted,
    Record.get?, List.lookup_cons, Json.Tree.string?]

theorem TypeDef.ofTree?_toJson (t : TypeDef) : TypeDef.ofTree? t.toJson = some t := by
  simp [TypeDef.toJson, TypeDef.ofTree?, Json.Tree.record?, Record.ofMembers?, Record.required, Record.defaulted,
    Record.get?, List.lookup_cons, Json.Tree.string?, TypeKind.ofTree?_code, nullable?_encodeList? FieldDef.ofTree?_toJson,
    nullable?_encodeList? InputValue.ofTree?_toJson, nullable?_encodeList? EnumValue.ofTree?_toJson]

theorem nullable?_encodeRoot (root : Option String) :
    Json.Tree.nullable? rootName? (encodeRoot root) = some root := by
  cases root with
  | none => rfl
  | some name =>
    simp [encodeRoot, Json.Tree.nullable?, rootName?, Json.Tree.record?, Record.ofMembers?, Record.required, Record.get?,
      Json.Tree.string?]

theorem Schema.ofTree?_toJson (s : Schema) : Schema.ofTree? s.toJson = some s := by
  simp [Schema.toJson, Schema.ofTree?, Json.Tree.record?, Record.ofMembers?, Record.defaulted, Record.get?,
    List.lookup_cons, nullable?_encodeRoot, Json.list?_map TypeDef.ofTree?_toJson]

/-! ## Numbers -/

theorem numberFree_encodeList? {g : α → Json} (h : ∀ a, Json.numberFree (g a) = true) (l : Option (List α)) :
    Json.numberFree (encodeList? g l) = true := by
  cases l with
  | none => rfl
  | some l => exact (Json.numberFreeItems_iff _).2 (List.forall_mem_map.2 fun a _ => h a)

theorem TypeRef.numberFree_toJson : ∀ r : TypeRef, Json.numberFree r.toJson = true
  | ⟨kind, name, none⟩ => by simp [TypeRef.toJson, Json.numberFree, Json.numberFreeMembers]
  | ⟨kind, name, some inner⟩ => by
    simp [TypeRef.toJson, Json.numberFree, Json.numberFreeMembers, TypeRef.numberFree_toJson inner]

theorem InputValue.numberFree_toJson (v : InputValue) : Json.numberFree v.toJson = true := by
  simp [InputValue.toJson, Json.numberFree, Json.numberFreeMembers, TypeRef.numberFree_toJson]

theorem FieldDef.numberFree_toJson (f : FieldDef) : Json.numberFree f.toJson = true := by
  simp [FieldDef.toJson, Json.numberFree, Json.numberFreeMembers, Json.numberFreeItems_iff, TypeRef.numberFree_toJson,
    InputValue.numberFree_toJson]

theorem EnumValue.numberFree_toJson (v : EnumValue) : Json.numberFree v.toJson = true := by
  simp [EnumValue.toJson, Json.numberFree, Json.numberFreeMembers]

theorem TypeDef.numberFree_toJson (t : TypeDef) : Json.numberFree t.toJson = true := by
  simp [TypeDef.toJson, Json.numberFree, Json.numberFreeMembers, numberFree_encodeList? FieldDef.numberFree_toJson,
    numberFree_encodeList? InputValue.numberFree_toJson, numberFree_encodeList? EnumValue.numberFree_toJson]

theorem numberFree_encodeRoot (root : Option String) : Json.numberFree (encodeRoot root) = true := by
  cases root <;> rfl

/-- No part of a schema is written as a number. -/
theorem Schema.numberFree_toJson (s : Schema) : Json.numberFree s.toJson = true := by
  simp [Schema.toJson, Json.numberFree, Json.numberFreeMembers, Json.numberFreeItems_iff, numberFree_encodeRoot,
    TypeDef.numberFree_toJson]

/-! ## The depth of what was read -/

namespace Json.Tree

theorem depth_pos_of_record? {names : List String} {t : Tree ε} {r : Record (Tree ε)} (h : t.record? names = some r) :
    0 < t.depth := by
  cases t with
  | obj members => exact Nat.succ_pos _
  | arr items => exact Nat.succ_pos _
  | _ => cases h

/-- A list is written no deeper than what it was read from, if its items are. -/
theorem depth_of_list? {f : Tree ε → Option α} {g : α → Json} (hf : ∀ {v a}, f v = some a → (g a).depth ≤ v.depth)
    {t : Tree ε} {l : List α} (h : t.list? f = some l) : (.arr (l.map g) : Json).depth ≤ t.depth := by
  cases t with
  | arr items =>
    refine Nat.succ_le_succ ((itemsDepth_le_iff _ _).2 (List.forall_mem_map.2 fun a ha => ?_))
    obtain ⟨v, hv, hread⟩ := exists_rel_of_mem_right (mapM_eq_some_iff.1 h) ha
    exact Nat.le_trans (hf hread) ((itemsDepth_le_iff items _).1 (Nat.le_refl _) v hv)
  | _ => cases h

theorem of_nullable?_some {f : Tree ε → Option α} {t : Tree ε} {a : α} (h : t.nullable? f = some (some a)) :
    f t = some a := by
  cases t with
  | null => cases h
  | _ =>
    obtain ⟨b, hb, heq⟩ := Option.map_eq_some_iff.1 h
    cases heq
    exact hb

/-- What may be null is written no deeper than what it was read from, if the value is. -/
theorem depth_of_nullable? {f : Tree ε → Option α} {g : α → Json} {t : Tree ε}
    (hf : ∀ a, f t = some a → (g a).depth ≤ t.depth) {o : Option α} (h : t.nullable? f = some o) :
    ((o.map g).getD .null).depth ≤ t.depth := by
  cases o with
  | none => exact Nat.zero_le _
  | some a => exact hf a (of_nullable?_some h)

end Json.Tree

theorem encodeList?_eq (g : α → Json) (l : Option (List α)) :
    encodeList? g l = (l.map fun l => .arr (l.map g)).getD .null := by
  cases l <;> rfl

/-- An optional list that is a field of a record is written less deep than the record was. -/
theorem depth_of_listField {f : Json.Tree ε → Option α} {g : α → Json}
    (hf : ∀ {v a}, f v = some a → (g a).depth ≤ v.depth) {names : List String} {t : Json.Tree ε} {r : Record (Json.Tree ε)}
    (hr : t.record? names = some r) {n : String} {l : Option (List α)}
    (h : r.defaulted n (Json.Tree.nullable? (Json.Tree.list? f)) none = some l) : (encodeList? g l).depth < t.depth := by
  rcases Record.of_defaulted h with rfl | ⟨v, hv, hread⟩
  · exact Json.Tree.depth_pos_of_record? hr
  · rw [encodeList?_eq]
    have hle := Json.Tree.depth_of_nullable? (fun l hl => Json.Tree.depth_of_list? hf hl) hread
    exact Nat.lt_of_le_of_lt hle (Json.Tree.depth_lt_of_record? hr hv)

theorem TypeRef.depth_of_ofTree? {t : Json.Tree ε} {r : TypeRef} (h : TypeRef.ofTree? t = some r) :
    r.toJson.depth ≤ t.depth := by
  -- what a reference wraps is read from a value that is less deep
  induction hn : t.depth using Nat.strongRecOn generalizing t r with
  | ind n ih =>
    subst hn
    simp only [ofTree?_eq, ofFields?, Option.bind_eq_bind, Option.bind_eq_some_iff, Option.pure_def, Option.some.injEq] at h
    obtain ⟨record, hr, kind, -, name, -, ofType, hofType, rfl⟩ := h
    have hpos := Json.Tree.depth_pos_of_record? hr
    have hinner : ((ofType.map toJson).getD .null).depth < t.depth := by
      rcases Record.of_defaulted hofType with rfl | ⟨v, hv, hread⟩
      · exact hpos
      · have hlt := Json.Tree.depth_lt_of_record? hr hv
        exact Nat.lt_of_le_of_lt (Json.Tree.depth_of_nullable? (fun a ha => ih v.depth hlt ha rfl) hread) hlt
    simp only [toJson_eq, innerJson, Json.Tree.depth, Json.Tree.membersDepth, Json.depth_ofString?]
    omega

theorem TypeRef.depth_toJson_pos (r : TypeRef) : 0 < r.toJson.depth := by
  rw [toJson_eq]
  exact Nat.succ_pos _

theorem InputValue.depth_of_ofTree? {t : Json.Tree ε} {v : InputValue} (h : InputValue.ofTree? t = some v) :
    v.toJson.depth ≤ t.depth := by
  simp only [InputValue.ofTree?, Option.bind_eq_bind, Option.bind_eq_some_iff, Option.pure_def, Option.some.injEq,
    Record.required] at h
  obtain ⟨r, hr, name, -, description, -, type, ⟨u, hu, htype⟩, defaultValue, -, rfl⟩ := h
  have hlt := Json.Tree.depth_lt_of_record? hr hu
  have hle := TypeRef.depth_of_ofTree? htype
  simp only [InputValue.toJson, Json.Tree.depth, Json.Tree.membersDepth, Json.depth_ofString?]
  omega

theorem FieldDef.depth_of_ofTree? {t : Json.Tree ε} {f : FieldDef} (h : FieldDef.ofTree? t = some f) :
    f.toJson.depth ≤ t.depth := by
  simp only [FieldDef.ofTree?, Option.bind_eq_bind, Option.bind_eq_some_iff, Option.pure_def, Option.some.injEq,
    Record.required] at h
  obtain ⟨r, hr, name, -, description, -, args, hargs, type, ⟨u, hu, htype⟩, rfl⟩ := h
  have hlt := Json.Tree.depth_lt_of_record? hr hu
  have hle := TypeRef.depth_of_ofTree? htype
  have hpos := type.depth_toJson_pos
  have hlist : (.arr (args.map InputValue.toJson) : Json).depth < t.depth := by
    rcases Record.of_defaulted hargs with rfl | ⟨v, hv, hread⟩
    -- without arguments an empty list is written, which is no deeper than a type
    · have hnil : (.arr ([].map InputValue.toJson) : Json).depth = 1 := rfl
      omega
    · exact Nat.lt_of_le_of_lt (Json.Tree.depth_of_list? InputValue.depth_of_ofTree? hread)
        (Json.Tree.depth_lt_of_record? hr hv)
  rw [FieldDef.toJson, Json.Tree.depth]
  simp only [Json.Tree.membersDepth, Json.depth_ofString?]
  have hname : (.str name : Json).depth = 0 := rfl
  omega

theorem EnumValue.depth_of_ofTree? {t : Json.Tree ε} {v : EnumValue} (h : EnumValue.ofTree? t = some v) :
    v.toJson.depth ≤ t.depth := by
  simp only [EnumValue.ofTree?, Option.bind_eq_bind, Option.bind_eq_some_iff, Option.pure_def, Option.some.injEq] at h
  obtain ⟨r, hr, name, -, description, -, rfl⟩ := h
  have hpos := Json.Tree.depth_pos_of_record? hr
  simp only [EnumValue.toJson, Json.Tree.depth, Json.Tree.membersDepth, Json.depth_ofString?]
  omega

theorem TypeDef.depth_of_ofTree? {t : Json.Tree ε} {d : TypeDef} (h : TypeDef.ofTree? t = some d) :
    d.toJson.depth ≤ t.depth := by
  simp only [TypeDef.ofTree?, Option.bind_eq_bind, Option.bind_eq_some_iff, Option.pure_def, Option.some.injEq] at h
  obtain ⟨r, hr, kind, -, name, -, description, -, fields, hfields, inputFields, hinputs, enumValues, hvalues, rfl⟩ := h
  have hfieldsDepth := depth_of_listField FieldDef.depth_of_ofTree? hr hfields
  have hinputsDepth := depth_of_listField InputValue.depth_of_ofTree? hr hinputs
  have hvaluesDepth := depth_of_listField EnumValue.depth_of_ofTree? hr hvalues
  simp only [TypeDef.toJson, Json.Tree.depth, Json.Tree.membersDepth, Json.depth_ofString?]
  omega

theorem depth_encodeRoot_le (root : Option String) : (encodeRoot root).depth ≤ 1 := by
  cases root with
  | none => exact Nat.zero_le 1
  | some name => exact Nat.le_refl 1

/-- A schema is written no deeper than what it was read from, unless that left out the list of types. -/
theorem Schema.depth_of_ofTree? {t : Json.Tree ε} {s : Schema} (h : Schema.ofTree? t = some s) :
    s.toJson.depth ≤ max t.depth 2 := by
  simp only [Schema.ofTree?, Option.bind_eq_bind, Option.bind_eq_some_iff, Option.pure_def, Option.some.injEq] at h
  obtain ⟨r, hr, queryType, -, mutationType, -, subscriptionType, -, types, htypes, rfl⟩ := h
  have htypesDepth : (.arr (types.map TypeDef.toJson) : Json).depth < max t.depth 2 := by
    rcases Record.of_defaulted htypes with rfl | ⟨v, hv, hread⟩
    · have hnil : (.arr ([].map TypeDef.toJson) : Json).depth = 1 := rfl
      omega
    · have hle := Json.Tree.depth_of_list? TypeDef.depth_of_ofTree? hread
      have hlt := Json.Tree.depth_lt_of_record? hr hv
      omega
  have hquery := depth_encodeRoot_le queryType
  have hmutation := depth_encodeRoot_le mutationType
  have hsubscription := depth_encodeRoot_le subscriptionType
  rw [Schema.toJson, Json.Tree.depth]
  simp only [Json.Tree.membersDepth]
  omega

/-! ## Documents -/

/-- The forms in which a schema arrives: in a container of its own, or as the data of a response. -/
inductive Envelope where
  | container
  | response

namespace Envelope

/-- The document of a schema. -/
def document : Envelope → Schema → Json
  | .container, s => .obj [("__schema", s.toJson)]
  | .response, s => .obj [("data", .obj [("__schema", s.toJson)])]

/-- The texts of a schema's document are read as that schema, whatever blanks and escapes they have; in particular this
holds of the compact and of the pretty text. -/
structure ReadsBack (e : Envelope) (s : Schema) : Prop where
  texts : ∀ text, Json.read text = some (e.document s).lift → Schema.ofText text = .ok s
  compact : Schema.ofText (e.document s).compact = .ok s
  pretty : Schema.ofText (e.document s).pretty = .ok s

theorem numberFree_document (e : Envelope) (s : Schema) : Json.numberFree (e.document s) = true := by
  cases e <;> simp [document, Json.numberFree, Json.numberFreeMembers, s.numberFree_toJson]

theorem ofContainer?_document (s : Schema) : Schema.ofContainer? (container.document s) = some s := by
  simp [document, Schema.ofContainer?, Json.Tree.record?, Record.ofMembers?, Record.required, Record.get?,
    s.ofTree?_toJson]

/-- A document is taken for what it is: a response has no container, so it is not read as one. -/
theorem ofEnvelope_document (e : Envelope) (s : Schema) (body : String) :
    Schema.ofEnvelope (e.document s) body = .ok s := by
  cases e with
  | container => rw [Schema.ofEnvelope, ofContainer?_document]
  | response =>
    have hcontainer : Schema.ofContainer? (response.document s) = none := by
      simp [document, Schema.ofContainer?, Json.Tree.record?, Record.ofMembers?, Record.required, Record.get?]
    have hdata : Json.Tree.nullable? Schema.ofContainer? (container.document s) = some (some s) :=
      congrArg (Option.map some) (ofContainer?_document s)
    have hresponse : Response.ofTree? Schema.ofContainer? (response.document s) = some ⟨some s, []⟩ := by
      have hdoc : response.document s = .obj [("data", container.document s)] := rfl
      rw [hdoc]
      simp [Response.ofTree?, Json.Tree.record?, Record.ofMembers?, Record.optional, Record.defaulted, Record.get?,
        List.lookup_cons, hdata]
    rw [Schema.ofEnvelope, hcontainer, hresponse]
    rfl

theorem readsBack_of_depth {e : Envelope} {s : Schema} (h : (e.document s).depth ≤ Json.maxDepth) : e.ReadsBack s := by
  have htexts : ∀ text, Json.read text = some (e.document s).lift → Schema.ofText text = .ok s := by
    intro text htext
    rw [Schema.ofText, htext, Option.bind_some, Json.Tree.faultless?_lift]
    exact e.ofEnvelope_document s text
  exact ⟨htexts, htexts _ (Json.read_compact (e.numberFree_document s) h),
    htexts _ (Json.read_pretty (e.numberFree_document s) h)⟩

end Envelope

namespace Schema

/-- The container of a schema is no deeper than the one that the schema was read from, unless that left out the list of
types. -/
theorem depth_of_ofContainer? {t : Json.Tree ε} {s : Schema} (h : ofContainer? t = some s) :
    (Envelope.container.document s).depth ≤ max t.depth 3 := by
  simp only [ofContainer?, Option.bind_eq_bind, Option.bind_eq_some_iff, Record.required] at h
  obtain ⟨r, hr, v, hv, hs⟩ := h
  have hlt := Json.Tree.depth_lt_of_record? hr hv
  have hle := depth_of_ofTree? hs
  simp only [Envelope.document, Json.Tree.depth, Json.Tree.membersDepth]
  omega

/-- What is no container is accepted as a response whose data is one. -/
theorem exists_of_ofEnvelope {t : Json} {body : String} {s : Schema} (h : ofEnvelope t body = .ok s) :
    ofContainer? t = some s ∨ ofContainer? t = none ∧ ∃ v : Json, v.depth < t.depth ∧ ofContainer? v = some s := by
  unfold ofEnvelope at h
  split at h
  next s' hs =>
    cases h
    exact .inl hs
  next hnone =>
    refine .inr ⟨hnone, ?_⟩
    split at h
    next r hr =>
      simp only [Response.ofTree?, Option.bind_eq_bind, Option.bind_eq_some_iff, Option.pure_def, Option.some.injEq] at hr
      obtain ⟨record, hrecord, data, hdata, errors, -, rfl⟩ := hr
      cases errors with
      | cons e es => cases h
      | nil =>
        cases data with
        | none => cases h
        | some s' =>
          cases h
          obtain ⟨v, hv, hread⟩ := Record.of_optional_some hdata
          exact ⟨v, Json.Tree.depth_lt_of_record? hrecord hv, Json.Tree.of_nullable?_some hread⟩
    next => cases h

/-- The tree of an accepted text: it is not too deep, and the schema is read from it. -/
theorem exists_of_ofText {text : String} {s : Schema} (h : ofText text = .ok s) :
    ∃ t : Json, (Json.read text).bind Json.Tree.faultless? = some t ∧ t.depth ≤ Json.maxDepth ∧ ofEnvelope t text = .ok s := by
  unfold ofText at h
  split at h
  next t ht =>
    obtain ⟨doc, hdoc, hfree⟩ := Option.bind_eq_some_iff.1 ht
    refine ⟨t, ht, ?_, h⟩
    rw [Json.Tree.depth_of_faultless? hfree]
    exact Json.depth_of_read hdoc
  next => cases h

end Schema

/-- A schema that is written as a document, in either envelope, is read back, unless the document is nested too deep. Every
text that is accepted has a schema that can be written again: in a container of its own, and also as a response if the text
was no container. -/
theorem introspection_round_trip :
    (∀ (s : Schema) (e : Envelope), (e.document s).depth ≤ Json.maxDepth → e.ReadsBack s) ∧
    ∀ (text : String) (s : Schema), Schema.ofText text = .ok s →
      ∃ t : Json, (Json.read text).bind Json.Tree.faultless? = some t ∧ Envelope.container.ReadsBack s ∧
        (Schema.ofContainer? t = none → Envelope.response.ReadsBack s) := by
  refine ⟨fun s e => Envelope.readsBack_of_depth, ?_⟩
  intro text s h
  have hlimit : Json.maxDepth = 127 := rfl
  obtain ⟨t, ht, hdepth, henvelope⟩ := Schema.exists_of_ofText h
  rcases Schema.exists_of_ofEnvelope henvelope with hs | ⟨hnone, v, hlt, hs⟩
  · have hle := Schema.depth_of_ofContainer? hs
    refine ⟨t, ht, Envelope.readsBack_of_depth (by omega), ?_⟩
    intro hnone
    rw [hs] at hnone
    cases hnone
  · have hle := Schema.depth_of_ofContainer? hs
    have hresponse : (Envelope.response.document s).depth = (Envelope.container.document s).depth + 1 := rfl
    exact ⟨t, ht, Envelope.readsBack_of_depth (by omega), fun _ => Envelope.readsBack_of_depth (by omega)⟩

/-- A schema with a kind that is not known, a list of lists, and definitions that leave out all they can. -/
def bazaarSchema : Schema where
  queryType := some "Bazaar"
  mutationType := none
  subscriptionType := some ""
  types :=
    [⟨.object, "Bazaar", some "a \"market\"", some
        [⟨"stalls", none, [⟨"near", some "", .nonNull (.named .scalar "Place"), some "\"gate\""⟩],
          .nonNull (.list (.list (.nonNull (.named .other "Stall"))))⟩], none, none⟩,
      ⟨.other, "Stall", none, none, some [], some [⟨"OPEN", none⟩]⟩,
      ⟨.union, "", none, none, none, none⟩]

/-- A response that leaves out all it can. -/
def sparseResponse : String := "\x7b\"data\": \x7b\"__schema\": \x7b\x7d\x7d\x7d"

/-- The schema of the bazaar is read back from both of its documents, and so is one that came in a sparse response. -/
theorem bazaar_round_trip :
    (∀ e : Envelope, (e.document bazaarSchema).depth ≤ Json.maxDepth ∧ e.ReadsBack bazaarSchema) ∧
    ∃ s, Schema.ofText sparseResponse = .ok s ∧ Envelope.container.ReadsBack s := by
  constructor
  · intro e
    have hdepth : (e.document bazaarSchema).depth ≤ Json.maxDepth := by
      cases e <;> decide
    exact ⟨hdepth, introspection_round_trip.1 _ _ hdepth⟩
  · have hok : (Schema.ofText sparseResponse).isOk = true := by decide +kernel
    cases htext : Schema.ofText sparseResponse with
    | error e =>
      rw [htext] at hok
      cases hok
    | ok s =>
      obtain ⟨-, -, hcontainer, -⟩ := introspection_round_trip.2 _ _ htext
      exact ⟨s, rfl, hcontainer⟩

end SdkLoom
