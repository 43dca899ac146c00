import SdkLoom.Proofs.Coherence
import SdkLoom.Schema.OfSdl

/-!
# The schema of a document

What the index of a document's schema has under a name: the last definition of that name, converted, or else the built-in
scalar (`Schema.index_ofDocument`). The types of a document's client are read off these definitions as they are written
(`Definition.types_get?_ofDocument`).
-/

namespace SdkLoom

/-- A sequence succeeds exactly if its first part does and the second part does on what the first gives. -/
theorem bind_eq_ok_iff {ε α β : Type} {x : Except ε α} {f : α → Except ε β} {b : β} :
    x >>= f = .ok b ↔ ∃ a, x = .ok a ∧ f a = .ok b := by
  cases x with
  | error e =>
    constructor
    · intro h
      cases h
    · rintro ⟨a, ha, -⟩
      cases ha
  | ok a =>
    constructor
    · intro h
      exact ⟨a, rfl, h⟩
    · rintro ⟨a', ha, h⟩
      cases ha
      exact h

theorem map_eq_ok_iff {ε α β : Type} {x : Except ε α} {f : α → β} {b : β} :
    x.map f = .ok b ↔ ∃ a, x = .ok a ∧ f a = b := by
  cases x <;> simp [Except.map]

/-- A list of conversions that succeeds converts the items one by one. -/
theorem forall₂_of_mapM_eq_ok {ε α β : Type} {f : α → Except ε β} {l : List α} {l' : List β} (h : l.mapM f = .ok l') :
    List.Forall₂ (fun a b => f a = .ok b) l l' := by
  induction l generalizing l' with
  | nil =>
    cases h
    exact .nil
  | cons a rest ih =>
    rw [List.mapM_cons] at h
    obtain ⟨b, hb, h⟩ := bind_eq_ok_iff.1 h
    obtain ⟨rest', hrest, h⟩ := bind_eq_ok_iff.1 h
    cases h
    exact .cons hb (ih hrest)

namespace Sdl

/-! ## Written types -/

/-- Whether a written type has a list layer. -/
def TypeExpr.hasList : TypeExpr → Bool
  | .named _ => false
  | .list _ => true
  | .nonNull inner => inner.hasList

/-- A written type is described by its base name, with the kind that the document gives to it, and as a list if it has a
list layer. -/
theorem TypeExpr.describeRef_of_toRef {defs : List TypeDef} {e : TypeExpr} {r : TypeRef} (h : e.toRef defs = .ok r)
    (idx : Index) :
    ∃ kind, kindOf? defs e.baseName = some kind ∧ (idx.describeRef r).gqlType = e.baseName ∧
      (idx.describeRef r).leaf = idx.leafOf kind e.baseName ∧ (idx.describeRef r).list = e.hasList := by
  induction e generalizing r with
  | named name =>
    rw [toRef] at h
    split at h
    next kind hkind =>
      cases h
      have hleaf : (TypeRef.named kind name).isLeaf = true := by cases kind <;> rfl
      rw [idx.describeRef_of_isLeaf hleaf]
      exact ⟨kind, hkind, rfl, rfl, rfl⟩
    next => cases h
  | list item ih =>
    obtain ⟨r', hr, rfl⟩ := map_eq_ok_iff.1 h
    obtain ⟨kind, hkind, hname, hleaf, -⟩ := ih hr
    exact ⟨kind, hkind, hname, hleaf, rfl⟩
  | nonNull inner ih =>
    obtain ⟨r', hr, rfl⟩ := map_eq_ok_iff.1 h
    obtain ⟨kind, hkind, hname, hleaf, hlist⟩ := ih hr
    exact ⟨kind, hkind, hname, hleaf, hlist⟩

/-! ## Definitions -/

/-- The last definition of a name, which is the one that counts. -/
def lastDef? (defs : List TypeDef) (n : String) : Option TypeDef := defs.reverse.find? fun t => t.name == n

theorem lastDef?_eq_some {defs : List TypeDef} {n : String} {t : TypeDef} (h : lastDef? defs n = some t) :
    t ∈ defs ∧ t.name = n := by
  have hname := List.find?_some h
  exact ⟨List.mem_reverse.1 (List.mem_of_find?_eq_some h), eq_of_beq hname⟩

/-- The written types of a definition's fields by field name; of several fields of one name the last counts. -/
def Body.fieldTypes : Body → OrderedMap TypeExpr
  | .object fs => OrderedMap.ofEntries (fs.map fun f => (f.name, f.type))
  | .interface fs => OrderedMap.ofEntries (fs.map fun f => (f.name, f.type))
  | .input vs => OrderedMap.ofEntries (vs.map fun v => (v.name, v.type))
  | _ => []

theorem InputValue.convert_eq_ok {defs : List TypeDef} {v : InputValue} {v' : SdkLoom.InputValue}
    (h : v.convert defs = .ok v') : v'.name = v.name ∧ v.type.toRef defs = .ok v'.type := by
  obtain ⟨type, htype, h⟩ := bind_eq_ok_iff.1 h
  cases h
  exact ⟨rfl, htype⟩

theorem Field.convert_eq_ok {defs : List TypeDef} {f : Field} {f' : FieldDef} (h : f.convert defs = .ok f') :
    f'.name = f.name ∧ f.type.toRef defs = .ok f'.type := by
  obtain ⟨args, -, h⟩ := bind_eq_ok_iff.1 h
  obtain ⟨type, htype, h⟩ := bind_eq_ok_iff.1 h
  cases h
  exact ⟨rfl, htype⟩

/-- The references of converted fields are those of the written types. -/
theorem fieldTypes_forall₂ {α β : Type} {defs : List TypeDef} {convert : α → Except Error β} {name : α → String}
    {type : α → TypeExpr} {name' : β → String} {type' : β → TypeRef}
    (hconvert : ∀ a b, convert a = .ok b → name' b = name a ∧ (type a).toRef defs = .ok (type' b)) {l : List α} {l' : List β}
    (h : l.mapM convert = .ok l') :
    List.Forall₂ (fun a b => b.1 = a.1 ∧ a.2.toRef defs = .ok b.2)
      (OrderedMap.ofEntries (l.map fun a => (name a, type a))) (OrderedMap.ofEntries (l'.map fun b => (name' b, type' b))) := by
  refine OrderedMap.ofEntries_forall₂ (R := fun (e : TypeExpr) r => e.toRef defs = .ok r) ?_
  rw [List.forall₂_map_left_iff, List.forall₂_map_right_iff]
  exact (forall₂_of_mapM_eq_ok h).imp hconvert

/-- A definition is converted to one of the same name and kind, whose references are those of the written types. -/
theorem TypeDef.convert_eq_ok {defs : List TypeDef} {t : TypeDef} {t' : SdkLoom.TypeDef} (h : t.convert defs = .ok t') :
    t'.name = t.name ∧ t'.kind = t.body.kind ∧
      List.Forall₂ (fun a b => b.1 = a.1 ∧ a.2.toRef defs = .ok b.2) t.body.fieldTypes t'.refs := by
  obtain ⟨description, name, body⟩ := t
  cases body with
  | scalar =>
    cases h
    exact ⟨rfl, rfl, .nil⟩
  | union =>
    cases h
    exact ⟨rfl, rfl, .nil⟩
  | enum values =>
    cases h
    exact ⟨rfl, rfl, .nil⟩
  | object fs =>
    obtain ⟨fs', hfs, h⟩ := bind_eq_ok_iff.1 h
    cases h
    exact ⟨rfl, rfl, fieldTypes_forall₂ (fun _ _ => Field.convert_eq_ok) hfs⟩
  | interface fs =>
    obtain ⟨fs', hfs, h⟩ := bind_eq_ok_iff.1 h
    cases h
    exact ⟨rfl, rfl, fieldTypes_forall₂ (fun _ _ => Field.convert_eq_ok) hfs⟩
  | input vs =>
    obtain ⟨vs', hvs, h⟩ := bind_eq_ok_iff.1 h
    cases h
    exact ⟨rfl, rfl, fieldTypes_forall₂ (fun _ _ => InputValue.convert_eq_ok) hvs⟩

end Sdl

/-! ## The index -/

/-- The types of a document's schema are its converted definitions and the built-in scalars that these lack. -/
theorem Schema.ofDocument_eq_ok {doc : Sdl.Document} {s : Schema} (h : Schema.ofDocument doc = .ok s) :
    ∃ types, List.Forall₂ (fun t t' => t.convert (Sdl.typeDefs doc) = .ok t') (Sdl.typeDefs doc) types ∧
      s.types = types ++ Sdl.missingScalars types := by
  obtain ⟨types, htypes, h⟩ := bind_eq_ok_iff.1 h
  cases h
  exact ⟨types, forall₂_of_mapM_eq_ok htypes, rfl⟩

/-- In two lists that are related one by one, tests that agree on related items find related items. -/
theorem find?_forall₂ {α β : Type} {R : α → β → Prop} {p : α → Bool} {q : β → Bool} (hpq : ∀ a b, R a b → p a = q b)
    {l : List α} {l' : List β} (h : List.Forall₂ R l l') :
    l.find? p = none ∧ l'.find? q = none ∨ ∃ a b, l.find? p = some a ∧ l'.find? q = some b ∧ R a b := by
  induction h with
  | nil => exact .inl ⟨rfl, rfl⟩
  | @cons a b rest rest' hab _ ih =>
    rw [List.find?_cons, List.find?_cons, ← hpq a b hab]
    cases p a with
    | true => exact .inr ⟨a, b, rfl, rfl, hab⟩
    | false => exact ih

/-- Of the added scalars a name finds the one of that name, which is added if it is built in and has no definition. -/
theorem Sdl.find?_missingScalars (types : List SdkLoom.TypeDef) (n : String) :
    (Sdl.missingScalars types).reverse.find? (fun t => decide (t.name = n)) =
      if n ∈ Sdl.builtinScalars ∧ ∀ t ∈ types, t.name ≠ n then some (Sdl.scalarDef n) else none := by
  have hmem : ∀ t, t ∈ (Sdl.missingScalars types).reverse ↔
      ∃ m, (m ∈ Sdl.builtinScalars ∧ ∀ t ∈ types, t.name ≠ m) ∧ Sdl.scalarDef m = t := by
    intro t
    simp [Sdl.missingScalars]
  split
  next h =>
    cases hfind : (Sdl.missingScalars types).reverse.find? (fun t => decide (t.name = n)) with
    | none => exact absurd (decide_eq_true rfl) (List.find?_eq_none.1 hfind _ ((hmem _).2 ⟨n, h, rfl⟩))
    | some t =>
      obtain ⟨m, -, rfl⟩ := (hmem t).1 (List.mem_of_find?_eq_some hfind)
      have hname := List.find?_some hfind
      obtain rfl : m = n := of_decide_eq_true hname
      rfl
  next h =>
    rw [List.find?_eq_none]
    intro t ht hname
    obtain ⟨m, hm, rfl⟩ := (hmem t).1 ht
    obtain rfl : m = n := of_decide_eq_true hname
    exact h hm

/-- What the index of a document's schema has under a name: the converted last definition, or else the built-in scalar. -/
theorem Schema.index_ofDocument {doc : Sdl.Document} {s : Schema} (h : Schema.ofDocument doc = .ok s) (n : String) :
    (∃ t t', Sdl.lastDef? (Sdl.typeDefs doc) n = some t ∧
      t.convert (Sdl.typeDefs doc) = .ok t' ∧ s.index.get? n = some t') ∨
    Sdl.lastDef? (Sdl.typeDefs doc) n = none ∧
      s.index.get? n = if n ∈ Sdl.builtinScalars then some (Sdl.scalarDef n) else none := by
  obtain ⟨types, hconvert, htypes⟩ := Schema.ofDocument_eq_ok h
  rw [s.index_get?, htypes, List.reverse_append, List.find?_append, Sdl.find?_missingScalars]
  have hsame : ∀ (t : Sdl.TypeDef) (t' : TypeDef), t.convert (Sdl.typeDefs doc) = .ok t' →
      (t.name == n) = decide (t'.name = n) := by
    intro t t' ht
    rw [(Sdl.TypeDef.convert_eq_ok ht).1]
    rfl
  rcases find?_forall₂ hsame (List.rel_reverse hconvert) with ⟨hdef, hfind⟩ | ⟨t, t', hdef, hfind, ht⟩
  · right
    have hnone : ∀ t ∈ types, t.name ≠ n := by
      intro t ht hname
      exact List.find?_eq_none.1 hfind t (List.mem_reverse.2 ht) (decide_eq_true hname)
    rw [hfind, Option.or_none]
    exact ⟨hdef, if_congr (and_iff_left hnone) rfl rfl⟩
  · left
    have hname := List.find?_some hfind
    have hmem : t' ∈ types := List.mem_reverse.1 (List.mem_of_find?_eq_some hfind)
    rw [if_neg (fun hall => hall.2 t' hmem (of_decide_eq_true hname))]
    exact ⟨t, t', hdef, ht, hfind⟩

/-- A type of a document's client that is no scalar is the last definition of its name: it has the leaf of that definition's
kind, and its fields are described by the references of the written types. -/
theorem Definition.types_get?_ofDocument {doc : Sdl.Document} {s : Schema} {ignored : IgnoreList} {d : Definition}
    (hs : Schema.ofDocument doc = .ok s) (hd : Definition.ofSchema s ignored = .ok d) {n : String} {ty : Descriptor}
    (hty : d.model.types.get? n = some ty) (hprim : ty.isPrimitive = false) :
    ∃ t refs, Sdl.lastDef? (Sdl.typeDefs doc) n = some t ∧ ty.leaf = s.index.leafOf t.body.kind n ∧
      ty.fields = s.index.describeRefs? refs ∧
      List.Forall₂ (fun a b => b.1 = a.1 ∧ a.2.toRef (Sdl.typeDefs doc) = .ok b.2) t.body.fieldTypes refs := by
  obtain ⟨t', ht', hleaf, hfields⟩ := Definition.types_get?_eq_some hd hty
  rcases Schema.index_ofDocument hs n with ⟨t, t₁, hlast, hconvert, hindex⟩ | ⟨-, hindex⟩
  · rw [ht'] at hindex
    cases hindex
    obtain ⟨-, hkind, hrefs⟩ := Sdl.TypeDef.convert_eq_ok hconvert
    rw [hkind] at hleaf
    exact ⟨t, t'.refs, hlast, hleaf, hfields, hrefs⟩
  · -- a name without a definition is a built-in scalar
    rw [ht'] at hindex
    split at hindex
    · cases hindex
      rw [Index.isPrimitive_of_leaf hleaf] at hprim
      exact absurd rfl (of_decide_eq_false hprim)
    · cases hindex

end SdkLoom
