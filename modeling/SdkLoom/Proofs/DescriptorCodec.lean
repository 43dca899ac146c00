import SdkLoom.Descriptor.Codec
import SdkLoom.Proofs.JsonDecode

/-!
# Descriptors survive their JSON form

A descriptor in which no map has a key twice is read back from its JSON form as it was (`Descriptor.ofJson?_toJson`). What
is read from any value is such a descriptor, and its JSON form is no deeper than the value that it was read from
(`Descriptor.sound_of_ofJson?`).
-/

namespace SdkLoom

open Json (Record)

variable {ε : Type}

/-- In no map of a descriptor, at any depth, a key has two entries. -/
inductive Descriptor.WellKeyed : Descriptor → Prop
  | intro {d : Descriptor} (keys : ∀ fs, d.fields = some fs → OrderedMap.Distinct fs)
      (values : ∀ fs, d.fields = some fs → ∀ e ∈ fs, e.2.WellKeyed) : d.WellKeyed

/-- No key has two entries, and neither has any in the descriptors. -/
def Fields.WellKeyed (fs : Fields) : Prop := OrderedMap.Distinct fs ∧ ∀ e ∈ fs, e.2.WellKeyed

namespace Descriptor

theorem wellKeyed_iff (d : Descriptor) : d.WellKeyed ↔ ∀ fs, d.fields = some fs → Fields.WellKeyed fs := by
  constructor
  · rintro ⟨keys, values⟩ fs hfs
    exact ⟨keys fs hfs, values fs hfs⟩
  · intro h
    exact ⟨fun fs hfs => (h fs hfs).1, fun fs hfs => (h fs hfs).2⟩

/-! ## The codec in terms of lists -/

theorem membersJson_eq_map (fs : Fields) : membersJson fs = fs.map fun e => (e.1, e.2.toJson) := by
  induction fs with
  | nil => rfl
  | cons e fs ih => rw [membersJson, ih, List.map_cons]

theorem readFields_eq_map (ms : List (String × Json)) : readFields ms = ms.map fun m => (m.1, ofJson? m.2) := by
  induction ms with
  | nil => rfl
  | cons m ms ih => rw [readFields, ih, List.map_cons]

/-- A value as fields, or null. -/
def readObject : Json → Option (Option Fields)
  | .null => some none
  | .obj ms => (Fields.ofReadings? (readFields ms)).map some
  | _ => none

/-- A value with its reading as fields. -/
def Member.ofTree (t : Json) : Member := { tree := t, fields := readObject t }

theorem readMembers_eq_map (ms : List (String × Json)) : readMembers ms = ms.map fun m => (m.1, Member.ofTree m.2) := by
  induction ms with
  | nil => rfl
  | cons m ms ih =>
    obtain ⟨k, t⟩ := m
    rw [List.map_cons, ← ih]
    cases t <;> rfl

/-- The members of the JSON form of a descriptor. -/
def members (d : Descriptor) : List (String × Json) :=
  (d.name.map fun n => ("name", .str n)).toList ++ ("gqlType", .str d.gqlType) :: d.leaf.members ++
    [("list", .bool d.list), ("required", .bool d.required), ("subRequired", .bool d.subRequired)] ++
    (d.fields.map fun fs => ("fields", Fields.toJson fs)).toList

theorem toJson_eq (d : Descriptor) : d.toJson = .obj d.members := by
  obtain ⟨name, gqlType, leaf, list, required, subRequired, fields⟩ := d
  cases name <;> cases fields <;> rfl

/-! ## Reading what was written -/

theorem nodup_members (d : Descriptor) : (d.members.map Prod.fst).Nodup := by
  obtain ⟨name, gqlType, leaf, list, required, subRequired, fields⟩ := d
  cases name <;> cases leaf <;> cases fields <;> simp [members, Leaf.members]

/-- What stands under each name in the JSON form of a descriptor. -/
theorem lookup_members (d : Descriptor) :
    d.members.lookup "name" = d.name.map .str ∧ d.members.lookup "gqlType" = some (.str d.gqlType) ∧
      d.members.lookup "list" = some (.bool d.list) ∧ d.members.lookup "required" = some (.bool d.required) ∧
      d.members.lookup "subRequired" = some (.bool d.subRequired) ∧
      d.members.lookup "fields" = d.fields.map Fields.toJson ∧
      ∀ m ∈ d.leaf.members, d.members.lookup m.1 = some m.2 := by
  obtain ⟨name, gqlType, leaf, list, required, subRequired, fields⟩ := d
  cases name <;> cases leaf <;> cases fields <;> simp [members, Leaf.members, List.lookup_cons]

end Descriptor

theorem ScalarClass.ofCode?_code (cls : ScalarClass) : ofCode? cls.code = some cls := by cases cls <;> rfl

/-- A list of strings is read back. -/
theorem Json.list?_ofStrings (ss : List String) :
    Json.Tree.list? Json.Tree.string? (Json.ofStrings ss : Json.Tree ε) = some ss :=
  mapM_eq_some_iff.2 (List.forall₂_map_left_iff.2 (List.forall₂_same.2 fun _ _ => rfl))

/-- A leaf is read from members among which its own are. -/
theorem Leaf.ofMembers?_of_lookup {ms : List (String × Json)} (hms : (ms.map Prod.fst).Nodup) {leaf : Leaf}
    (h : ∀ m ∈ leaf.members, ms.lookup m.1 = some m.2) : Leaf.ofMembers? ms = some leaf := by
  have hget : ∀ n, ∃ r, Record.ofMembers? [n] ms = some r ∧ r.get? n = ms.lookup n := by
    intro n
    obtain ⟨r, hr⟩ := Record.exists_ofMembers? hms [n]
    exact ⟨r, hr, Record.get?_of_ofMembers? hr List.mem_cons_self⟩
  obtain ⟨tagged, htagged, htag⟩ := hget "leaf"
  rw [Leaf.ofMembers?, htagged, Option.bind_eq_bind, Option.bind_some, Record.required, htag]
  cases leaf with
  | primitive cls =>
    obtain ⟨classed, hclassed, hclass⟩ := hget "class"
    have hleaf : ms.lookup "leaf" = some (.str "primitive") := h _ List.mem_cons_self
    have hcode : ms.lookup "class" = some (.str cls.code) := h _ (List.mem_cons_of_mem _ List.mem_cons_self)
    simp [hleaf, hclassed, Record.required, hclass, hcode, Json.Tree.heldChoice?, Json.Tree.choice?,
      ScalarClass.ofCode?_code]
  | enum values =>
    obtain ⟨valued, hvalued, hvalues⟩ := hget "values"
    have hleaf : ms.lookup "leaf" = some (.str "enum") := h _ List.mem_cons_self
    have hlist : ms.lookup "values" = some (Json.ofStrings values) := h _ (List.mem_cons_of_mem _ List.mem_cons_self)
    simp [hleaf, hvalued, Record.required, hvalues, hlist, Json.list?_ofStrings]
  | object =>
    have hleaf : ms.lookup "leaf" = some (.str "object") := h _ List.mem_cons_self
    rw [hleaf]
    rfl
  | input =>
    have hleaf : ms.lookup "leaf" = some (.str "input") := h _ List.mem_cons_self
    rw [hleaf]
    rfl
  | unknown =>
    have hleaf : ms.lookup "leaf" = some (.str "unknown") := h _ List.mem_cons_self
    rw [hleaf]
    rfl

/-- Fields are read back if each of their descriptors is. -/
theorem Fields.ofReadings?_membersJson {fs : Fields} (hkeys : OrderedMap.Distinct fs)
    (h : ∀ e ∈ fs, Descriptor.ofJson? e.2.toJson = some e.2) :
    Fields.ofReadings? (Descriptor.readFields (Descriptor.membersJson fs)) = some fs := by
  have hread : (Descriptor.readFields (Descriptor.membersJson fs)).mapM
      (fun e : String × Option Descriptor => e.2.map fun d => (e.1, d)) = some fs := by
    rw [Descriptor.membersJson_eq_map, Descriptor.readFields_eq_map, List.map_map]
    refine mapM_eq_some_iff.2 (List.forall₂_map_left_iff.2 (List.forall₂_same.2 fun e he => ?_))
    simp only [Function.comp_apply, h e he, Option.map_some]
  rw [Fields.ofReadings?, hread, Option.map_some, OrderedMap.ofEntries_of_distinct hkeys]

/-- A descriptor is read back from its JSON form. -/
theorem Descriptor.ofJson?_toJson {d : Descriptor} (h : d.WellKeyed) : Descriptor.ofJson? d.toJson = some d := by
  induction h with
  | @intro d keys _ ih =>
    obtain ⟨hname, hgqlType, hlist, hrequired, hsubRequired, hfields, hleaf⟩ := d.lookup_members
    have hnodup : ((readMembers d.members).map Prod.fst).Nodup := by
      rw [readMembers_eq_map, List.map_map]
      exact d.nodup_members
    obtain ⟨r, hr⟩ := Record.exists_ofMembers? hnodup ["name", "gqlType", "list", "required", "subRequired", "fields"]
    have hget : ∀ n ∈ ["name", "gqlType", "list", "required", "subRequired", "fields"],
        r.get? n = (d.members.lookup n).map Member.ofTree := by
      intro n hn
      rw [Record.get?_of_ofMembers? hr hn, readMembers_eq_map, lookup_map_snd]
    have htrees : (readMembers d.members).map (fun e => (e.1, e.2.tree)) = d.members := by
      rw [readMembers_eq_map, List.map_map]
      exact List.map_id _
    have hinner : r.defaulted "fields" (fun m => m.fields) none = some d.fields := by
      rw [Record.defaulted, hget _ (by decide), hfields]
      cases hfs : d.fields with
      | none => rfl
      | some fs => exact congrArg (Option.map some) (Fields.ofReadings?_membersJson (keys fs hfs) (ih fs hfs))
    have hnamed : r.defaulted "name" (fun m => m.tree.nullable? Json.Tree.string?) none = some d.name := by
      rw [Record.defaulted, hget _ (by decide), hname]
      cases d.name <;> rfl
    have htyped : r.required "gqlType" (fun m => m.tree.string?) = some d.gqlType := by
      rw [Record.required, hget _ (by decide), hgqlType]
      rfl
    have hflag : ∀ n ∈ ["list", "required", "subRequired"], ∀ b, d.members.lookup n = some (.bool b) →
        r.defaulted n (fun m => m.tree.bool?) false = some b := by
      intro n hn b hb
      rw [Record.defaulted, hget n (by grind), hb]
      rfl
    rw [toJson_eq, ofJson?, ofMembers?, hr, htrees, Leaf.ofMembers?_of_lookup d.nodup_members hleaf]
    simp only [Option.bind_eq_bind, Option.bind_some, hnamed, htyped, hflag _ _ _ hlist, hflag _ _ _ hrequired,
      hflag _ _ _ hsubRequired, hinner, List.mem_cons, true_or, or_true]
    cases d
    rfl

/-! ## What is read -/

/-- The fields of a descriptor are read from its member of that name, and its leaf from all members. -/
theorem Descriptor.of_ofMembers? {ms : List (String × Descriptor.Member)} {d : Descriptor}
    (h : Descriptor.ofMembers? ms = some d) :
    (∀ fs, d.fields = some fs → ∃ m, ("fields", m) ∈ ms ∧ m.fields = some (some fs)) ∧
      Leaf.ofMembers? (ms.map fun e => (e.1, e.2.tree)) = some d.leaf := by
  simp only [Descriptor.ofMembers?, Option.bind_eq_bind, Option.bind_eq_some_iff, Option.pure_def, Option.some.injEq] at h
  obtain ⟨r, hr, name, -, gqlType, -, list, -, required, -, subRequired, -, fields, hfields, leaf, hleaf, rfl⟩ := h
  refine ⟨fun fs hfs => ?_, hleaf⟩
  cases hfs
  rw [Record.defaulted] at hfields
  split at hfields
  next m hm => exact ⟨m, Record.mem_of_ofMembers? hr hm, hfields⟩
  next => cases hfields

/-- The values of an enumeration are read from a list. -/
theorem Leaf.exists_of_ofMembers? {ms : List (String × Json)} {values : List String}
    (h : Leaf.ofMembers? ms = some (.enum values)) : ∃ items, ("values", .arr items) ∈ ms := by
  simp only [Leaf.ofMembers?, Option.bind_eq_bind, Option.bind_eq_some_iff] at h
  obtain ⟨-, -, tag, -, h⟩ := h
  split at h
  next =>
    simp only [Option.bind_eq_some_iff] at h
    obtain ⟨-, -, cls, -, h⟩ := h
    cases h
  next =>
    simp only [Option.bind_eq_some_iff] at h
    obtain ⟨r, hr, list, hlist, -⟩ := h
    obtain ⟨t, ht, hread⟩ := Option.bind_eq_some_iff.1 hlist
    cases t with
    | arr items => exact ⟨items, Record.mem_of_ofMembers? hr ht⟩
    | _ => cases hread
  all_goals cases h

/-- The JSON form of fields is deeper than those of their descriptors. -/
theorem Fields.depth_toJson_le_iff (fs : Fields) (n : Nat) :
    (Fields.toJson fs).depth ≤ n + 1 ↔ ∀ e ∈ fs, e.2.toJson.depth ≤ n := by
  rw [Fields.toJson, Json.Tree.depth, Nat.succ_le_succ_iff, Json.Tree.membersDepth_le_iff, Descriptor.membersJson_eq_map]
  exact List.forall_mem_map

/-- The values in the JSON form of a leaf are strings, and a list of strings for an enumeration. -/
theorem Leaf.forall_mem_members {leaf : Leaf} {P : Json → Prop} (hstr : ∀ s, P (.str s))
    (hvalues : ∀ values, leaf = .enum values → P (Json.ofStrings values)) : ∀ m ∈ leaf.members, P m.2 := by
  cases leaf with
  | primitive cls => exact List.forall_mem_cons.2 ⟨hstr _, List.forall_mem_singleton.2 (hstr _)⟩
  | enum values => exact List.forall_mem_cons.2 ⟨hstr _, List.forall_mem_singleton.2 (hvalues values rfl)⟩
  | _ => exact List.forall_mem_singleton.2 (hstr _)

/-- The values in the JSON form of a descriptor are strings, truth values, a list of strings for an enumeration and
fields. -/
theorem Descriptor.forall_mem_members {d : Descriptor} {P : Json → Prop} (hstr : ∀ s, P (.str s))
    (hbool : ∀ b, P (.bool b)) (hvalues : ∀ values, d.leaf = .enum values → P (Json.ofStrings values))
    (hfields : ∀ fs, d.fields = some fs → P (Fields.toJson fs)) : ∀ m ∈ d.members, P m.2 := by
  intro m hm
  simp only [members, List.mem_append, List.mem_cons, Option.mem_toList, Option.map_eq_some_iff, List.not_mem_nil,
    or_false] at hm
  rcases hm with ((⟨name, -, rfl⟩ | rfl | hm) | rfl | rfl | rfl) | ⟨fs, hfs, rfl⟩
  · exact hstr name
  · exact hstr d.gqlType
  · exact Leaf.forall_mem_members hstr hvalues m hm
  · exact hbool d.list
  · exact hbool d.required
  · exact hbool d.subRequired
  · exact hfields fs hfs

/-- The JSON form of a descriptor is deeper than its list of values and its fields. -/
theorem Descriptor.depth_toJson_le {d : Descriptor} {n : Nat} (hleaf : ∀ values, d.leaf = .enum values → 1 ≤ n)
    (hfields : ∀ fs, d.fields = some fs → (Fields.toJson fs).depth ≤ n) : d.toJson.depth ≤ n + 1 := by
  rw [toJson_eq, Json.Tree.depth, Nat.succ_le_succ_iff, Json.Tree.membersDepth_le_iff]
  refine forall_mem_members (P := fun j => j.depth ≤ n) (fun _ => Nat.zero_le n) (fun _ => Nat.zero_le n)
    (fun values hvalues => ?_) hfields
  rw [Json.ofStrings, Json.Tree.depth, ← Nat.sub_add_cancel (hleaf values hvalues), Nat.succ_le_succ_iff,
    Json.Tree.itemsDepth_le_iff]
  exact List.forall_mem_map.2 fun _ _ => Nat.zero_le _

/-- Fields are read from an object, each descriptor from the value of a member. -/
theorem Descriptor.of_readObject {t : Json} {fs : Fields} (h : readObject t = some (some fs)) :
    ∃ ms, t = .obj ms ∧ OrderedMap.Distinct fs ∧ ∀ e ∈ fs, ∃ m ∈ ms, ofJson? m.2 = some e.2 := by
  cases t with
  | obj ms =>
    obtain ⟨fs', hread, heq⟩ := Option.map_eq_some_iff.1 h
    cases heq
    obtain ⟨es, hes, rfl⟩ := Option.map_eq_some_iff.1 hread
    refine ⟨ms, rfl, OrderedMap.distinct_ofEntries es, fun e he => ?_⟩
    rw [readFields_eq_map, mapM_eq_some_iff, List.forall₂_map_left_iff] at hes
    obtain ⟨m, hm, hread⟩ := exists_rel_of_mem_right hes (OrderedMap.mem_of_mem_ofEntries he)
    obtain ⟨d, hd, rfl⟩ := Option.map_eq_some_iff.1 hread
    exact ⟨m, hm, hd⟩
  | null => cases h
  | fault cause => exact nomatch cause
  | _ => cases h

/-- What is read as a descriptor has no key twice, and its JSON form is no deeper than what it was read from. -/
theorem Descriptor.sound_of_ofJson? {j : Json} {d : Descriptor} (h : Descriptor.ofJson? j = some d) :
    d.WellKeyed ∧ d.toJson.depth ≤ j.depth := by
  -- the descriptors of the fields are read from values that are less deep
  induction hn : j.depth using Nat.strongRecOn generalizing j d with
  | ind n ih =>
    subst hn
    cases j with
    | obj ms =>
      rw [ofJson?] at h
      obtain ⟨hfields, hleaf⟩ := of_ofMembers? h
      rw [readMembers_eq_map, List.map_map] at hleaf
      have hinner : ∀ fs, d.fields = some fs →
          Fields.WellKeyed fs ∧ (Fields.toJson fs).depth ≤ Json.Tree.membersDepth ms := by
        intro fs hfs
        obtain ⟨m, hm, hread⟩ := hfields fs hfs
        rw [readMembers_eq_map] at hm
        obtain ⟨⟨k, t⟩, ht, heq⟩ := List.mem_map.1 hm
        cases heq
        obtain ⟨ms', htree, hkeys, hvalues⟩ := of_readObject hread
        have hdepth := Json.Tree.depth_le_membersDepth ht
        rw [htree, Json.Tree.depth] at hdepth
        have hsound : ∀ f ∈ fs, f.2.WellKeyed ∧ f.2.toJson.depth ≤ Json.Tree.membersDepth ms' := by
          intro f hf
          obtain ⟨m, hm, hread⟩ := hvalues f hf
          have hle := Json.Tree.depth_le_membersDepth hm
          have hlt : m.2.depth < (Json.Tree.obj ms).depth := by
            rw [Json.Tree.depth]
            omega
          obtain ⟨hkeyed, hd⟩ := ih _ hlt hread rfl
          exact ⟨hkeyed, Nat.le_trans hd hle⟩
        refine ⟨⟨hkeys, fun f hf => (hsound f hf).1⟩, Nat.le_trans ?_ hdepth⟩
        exact (Fields.depth_toJson_le_iff fs _).2 fun f hf => (hsound f hf).2
      refine ⟨d.wellKeyed_iff.2 fun fs hfs => (hinner fs hfs).1, ?_⟩
      rw [Json.Tree.depth]
      refine depth_toJson_le (fun values hvalues => ?_) fun fs hfs => (hinner fs hfs).2
      rw [hvalues] at hleaf
      obtain ⟨items, hitems⟩ := Leaf.exists_of_ofMembers? hleaf
      obtain ⟨⟨k, t⟩, ht, heq⟩ := List.mem_map.1 hitems
      cases heq
      exact Nat.le_trans (Nat.succ_le_succ (Nat.zero_le _)) (Json.Tree.depth_le_membersDepth ht)
    | fault cause => exact nomatch cause
    | _ => cases h

/-! ## Fields -/

theorem Descriptor.ofTree?_toJson {d : Descriptor} (h : d.WellKeyed) : Descriptor.ofTree? d.toJson = some d := by
  rw [Descriptor.ofTree?, Json.Tree.faultless?_self, Option.bind_some, Descriptor.ofJson?_toJson h]

/-- Descriptors by name are read back entry by entry. -/
theorem Fields.entries?_toJson {fs : Fields} (h : ∀ e ∈ fs, e.2.WellKeyed) :
    (Fields.toJson fs).entries? Descriptor.ofTree? = some fs := by
  rw [Fields.toJson, Descriptor.membersJson_eq_map]
  exact Json.Tree.entries?_obj_map fun e he => Descriptor.ofTree?_toJson (h e he)

/-- Fields are read back from their JSON form. -/
theorem Fields.ofTree?_toJson {fs : Fields} (h : Fields.WellKeyed fs) : Fields.ofTree? (Fields.toJson fs) = some fs := by
  rw [Fields.ofTree?, Fields.entries?_toJson h.2, Option.map_some, OrderedMap.ofEntries_of_distinct h.1]

theorem Descriptor.sound_of_ofTree? {t : Json.Tree ε} {d : Descriptor} (h : Descriptor.ofTree? t = some d) :
    d.WellKeyed ∧ d.toJson.depth ≤ t.depth := by
  obtain ⟨j, hj, h⟩ := Option.bind_eq_some_iff.1 h
  rw [← Json.Tree.depth_of_faultless? hj]
  exact Descriptor.sound_of_ofJson? h

theorem Fields.sound_of_ofTree? {t : Json.Tree ε} {fs : Fields} (h : Fields.ofTree? t = some fs) :
    Fields.WellKeyed fs ∧ (Fields.toJson fs).depth ≤ t.depth := by
  obtain ⟨es, hes, rfl⟩ := Option.map_eq_some_iff.1 h
  have hsound : ∀ e ∈ OrderedMap.ofEntries es, e.2.WellKeyed ∧ e.2.toJson.depth < t.depth := fun e he =>
    Json.Tree.sound_of_entries? Descriptor.sound_of_ofTree? hes e (OrderedMap.mem_of_mem_ofEntries he)
  refine ⟨⟨OrderedMap.distinct_ofEntries es, fun e he => (hsound e he).1⟩, ?_⟩
  rw [← Nat.sub_add_cancel (Json.Tree.exists_of_entries? hes).1, Fields.depth_toJson_le_iff]
  exact fun e he => Nat.le_sub_one_of_lt (hsound e he).2

/-! ## Numbers -/

namespace Descriptor

theorem numberFree_of_fields {d : Descriptor}
    (h : ∀ fs, d.fields = some fs → Json.numberFreeMembers (membersJson fs) = true) : d.toJson.numberFree = true := by
  rw [toJson_eq, Json.numberFree, Json.numberFreeMembers_iff]
  refine forall_mem_members (P := fun j => j.numberFree = true) (fun _ => rfl) (fun _ => rfl) (fun values _ => ?_) h
  exact (Json.numberFreeItems_iff _).2 (List.forall_mem_map.2 fun _ _ => rfl)

mutual

/-- Nothing in a descriptor is written as a number. -/
theorem numberFree_toJson : ∀ d : Descriptor, d.toJson.numberFree = true
  | ⟨_, _, _, _, _, _, none⟩ => numberFree_of_fields fun fs h => by cases h
  | ⟨_, _, _, _, _, _, some fields⟩ => numberFree_of_fields fun fs h => by
    cases h
    exact numberFree_membersJson fields

theorem numberFree_membersJson : ∀ fs : List (String × Descriptor), Json.numberFreeMembers (membersJson fs) = true
  | [] => rfl
  | (_, d) :: fs => Bool.and_eq_true_iff.2 ⟨numberFree_toJson d, numberFree_membersJson fs⟩

end

end Descriptor

end SdkLoom
