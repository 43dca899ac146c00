import Mathlib.Logic.Relation
import SdkLoom.Proofs.Documents
import SdkLoom.Proofs.GoReferences

/-!
# Structures of finite size

A structure that holds itself by value, directly or through other structures, has no finite size, and Go refuses it. A
field is written as a pointer only where it refers by name to the very type that has the field. So the client of a document
is free of such structures exactly if no cycle goes through fields that are neither lists nor such references
(`structs_finite_iff`). Two types that refer to each other make a client that Go refuses (`bookshop_structs_infinite`).
-/

namespace SdkLoom

/-! ## Containment in a document -/

namespace Sdl

/-- Whether a definition is one of a record: an object, an input, or an interface with fields. -/
def Body.isRecord : Body → Bool
  | .object _ => true
  | .input _ => true
  | .interface fs => !fs.isEmpty
  | _ => false

/-- A field of a type refers to a type of an exported name by value: it is no list, does not refer to the type itself, and
refers to no scalar. -/
def Embeds (defs : List TypeDef) (n ident : String) (type : TypeExpr) : Prop :=
  type.hasList = false ∧ n ≠ type.baseName ∧ kindOf? defs type.baseName ≠ some .scalar ∧
    Go.exported type.baseName = ident

instance (defs : List TypeDef) (n ident : String) (type : TypeExpr) : Decidable (Embeds defs n ident type) :=
  inferInstanceAs (Decidable (_ ∧ _))

/-- One name is defined with a field that refers by value to another, which is defined as a record. -/
def Nests (defs : List TypeDef) (a b : String) : Prop :=
  ∃ t ∈ lastDef? defs a, ∃ u ∈ lastDef? defs b,
    u.body.isRecord = true ∧ ∃ e ∈ t.body.fieldTypes, Embeds defs a (Go.exported b) e.2

instance (defs : List TypeDef) (a b : String) : Decidable (Nests defs a b) :=
  inferInstanceAs (Decidable (∃ t ∈ lastDef? defs a, _))

/-- Names that nest are names of definitions. -/
theorem Nests.mem_names {defs : List TypeDef} {a b : String} (h : Nests defs a b) :
    a ∈ defs.map TypeDef.name ∧ b ∈ defs.map TypeDef.name := by
  obtain ⟨t, ht, u, hu, -⟩ := h
  obtain ⟨htmem, rfl⟩ := lastDef?_eq_some ht
  obtain ⟨humem, rfl⟩ := lastDef?_eq_some hu
  exact ⟨List.mem_map_of_mem htmem, List.mem_map_of_mem humem⟩

theorem Body.isRecord_of_mem_fieldTypes {body : Body} {e : String × TypeExpr} (h : e ∈ body.fieldTypes) :
    body.isRecord = true := by
  cases body with
  | object _ => rfl
  | input _ => rfl
  | interface fs =>
    cases fs with
    | nil => exact absurd h List.not_mem_nil
    | cons _ _ => rfl
  | _ => exact absurd h List.not_mem_nil

end Sdl

namespace Go

/-! ## Containment in a package -/

/-- One declared type holds another by value: it has a field that is written as the bare name of the other, which is a
structure. -/
def Package.Holds (p : Package) (x y : TypeDecl) : Prop :=
  x ∈ p.types ∧ y ∈ p.types ∧ y.isStruct = true ∧ ∃ f ∈ x.fields, f.type = .named "" y.ident

/-- No declared type holds itself by value, directly or through others. -/
def Package.Finite (p : Package) : Prop := ∀ x, ¬ Relation.TransGen p.Holds x x

/-- The type of a descriptor is the bare name of its type exactly if it is no list, no scalar and not its owner. -/
theorem TypeExpr.ofDescriptor_eq_named_iff (ps : Primitives) (qualifier : String) (owner : Option String) (d : Descriptor)
    (ident : String) :
    ofDescriptor ps qualifier owner d = .named qualifier ident ↔
      d.list = false ∧ owner ≠ some d.gqlType ∧ d.isPrimitive = false ∧ exported d.gqlType = ident := by
  unfold ofDescriptor element
  cases d.list <;> cases d.isPrimitive <;> by_cases howner : owner = some d.gqlType <;> simp [howner]

/-- Every emitted name has a declared type. -/
theorem exists_declaredAs {d : Definition} {n : String} (h : d.emitted.contains n = true) (ps : Primitives) :
    ∃ decl, DeclaredAs d ps n decl := by
  obtain ⟨ty, hty, -⟩ := ((d.emitted_iff n).1 h).declarable
  exact ⟨_, h, ty, hty, rfl⟩

/-- Where every step of one relation is a step of another between whatever stands for its ends, a cycle of the one makes a
cycle of the other. -/
theorem cycle_of_simulation {α β : Type} {R : α → α → Prop} {S : β → β → Prop} {D : α → β → Prop}
    (hstep : ∀ a b x y, D a x → D b y → R a b → S x y) (hstart : ∀ a b, R a b → ∃ x, D a x) {a : α}
    (h : Relation.TransGen R a a) : ∃ x, Relation.TransGen S x x := by
  have hpath : ∀ {b x y}, D a x → D b y → Relation.TransGen R a b → Relation.TransGen S x y := by
    intro b x y hax hby hab
    -- each step is carried over for whatever stands for its end, so that `y` varies along the path
    induction hab generalizing y with
    | single hab => exact .single (hstep _ _ _ _ hax hby hab)
    | @tail c b _ hcb ih =>
      obtain ⟨z, hcz⟩ := hstart c b hcb
      exact .tail (ih hcz) (hstep _ _ _ _ hcz hby hcb)
  obtain ⟨b, hab, -⟩ := Relation.TransGen.head'_iff.1 h
  obtain ⟨x, hax⟩ := hstart a b hab
  exact ⟨x, hpath hax hax h⟩

/-! ## Documents and their packages -/

section Document

variable {defs : List Sdl.TypeDef} {idx : Index} {n : String} {ty : Descriptor} {t : Sdl.TypeDef} {refs : OrderedMap TypeRef}

/-- The type of a field is written as a bare name exactly if the document has it by value. -/
theorem ofDescriptor_eq_named_iff_embeds {e : Sdl.TypeExpr} {r : TypeRef} (h : e.toRef defs = .ok r) (idx : Index)
    (ps : Primitives) (n name ident : String) :
    TypeExpr.ofDescriptor ps "" (some n) ((idx.describeRef r).withName name) = .named "" ident ↔
      Sdl.Embeds defs n ident e := by
  obtain ⟨kind, hkind, hname, hleaf, hlist⟩ := e.describeRef_of_toRef h idx
  have hname' : ((idx.describeRef r).withName name).gqlType = e.baseName := hname
  have hlist' : ((idx.describeRef r).withName name).list = e.hasList := hlist
  have hleaf' : ((idx.describeRef r).withName name).leaf = idx.leafOf kind e.baseName := hleaf
  rw [TypeExpr.ofDescriptor_eq_named_iff, Index.isPrimitive_of_leaf hleaf', hname', hlist', Sdl.Embeds, hkind]
  simp only [ne_eq, Option.some.injEq, decide_eq_false_iff_not]

/-- Records are declared as structures, and nothing else is. -/
theorem isStruct_eq_isRecord (ps : Primitives) (hleaf : ty.leaf = idx.leafOf t.body.kind n)
    (hfields : ty.fields = idx.describeRefs? refs)
    (hrefs : List.Forall₂ (fun a b => b.1 = a.1 ∧ a.2.toRef defs = .ok b.2) t.body.fieldTypes refs) :
    (TypeDecl.ofDescriptor ps n ty).isStruct = t.body.isRecord := by
  rw [Bool.eq_iff_iff, TypeDecl.isStruct_ofDescriptor, hleaf, hfields, ne_eq, Index.describeRefs?_eq_none_iff]
  have hnil : refs = [] ↔ t.body.fieldTypes = [] := by
    rw [← List.length_eq_zero_iff, ← hrefs.length_eq, List.length_eq_zero_iff]
  rw [hnil]
  cases t.body with
  | interface fs => cases fs <;> simp [Sdl.Body.kind, Index.leafOf, Sdl.Body.isRecord, Sdl.Body.fieldTypes,
      OrderedMap.ofEntries_eq_nil_iff]
  | _ => simp [Sdl.Body.kind, Index.leafOf, Sdl.Body.isRecord, Sdl.Body.fieldTypes]

/-- A declared type has a field that is written as a bare name exactly if its definition has one that refers to it by
value. -/
theorem exists_named_field_iff (ps : Primitives) (hleaf : ty.leaf = idx.leafOf t.body.kind n)
    (hfields : ty.fields = idx.describeRefs? refs)
    (hrefs : List.Forall₂ (fun a b => b.1 = a.1 ∧ a.2.toRef defs = .ok b.2) t.body.fieldTypes refs) (ident : String) :
    (∃ f ∈ (TypeDecl.ofDescriptor ps n ty).fields, f.type = .named "" ident) ↔
      ∃ e ∈ t.body.fieldTypes, Sdl.Embeds defs n ident e.2 := by
  have hstruct := isStruct_eq_isRecord ps hleaf hfields hrefs
  cases hrecord : t.body.isRecord with
  | false =>
    rw [hrecord] at hstruct
    constructor
    · rintro ⟨f, hf, -⟩
      rw [TypeDecl.isStruct_of_mem_fields hf] at hstruct
      cases hstruct
    · rintro ⟨e, he, -⟩
      rw [Sdl.Body.isRecord_of_mem_fieldTypes he] at hrecord
      cases hrecord
  | true =>
    have hembeds := exists_mem_iff_of_forall₂
      (fun a b hab => (ofDescriptor_eq_named_iff_embeds hab.2 idx ps n b.1 ident).symm) hrefs
    rw [hembeds, TypeDecl.ofDescriptor_of_isStruct (hstruct.trans hrecord), Descriptor.fieldList, hfields,
      idx.describeRefs?_getD]
    simp only [TypeDecl.ofFields, TypeDecl.fields, List.map_map, List.mem_map, exists_exists_and_eq_and, Function.comp_apply]

end Document

/-! ## Finite sizes -/

/-- One emitted type of a document nests another. -/
def NestsEmitted (doc : Sdl.Document) (emitted : NameSet) (a b : String) : Prop :=
  emitted.contains a = true ∧ emitted.contains b = true ∧ Sdl.Nests (Sdl.typeDefs doc) a b

section Sizes

variable {doc : Sdl.Document} {s : Schema} {ignored : IgnoreList} {d : Definition} {ps : Primitives}

/-- A type that a package declares under a name is declared by the last definition of the name. -/
theorem DeclaredAs.lastDef (hs : Schema.ofDocument doc = .ok s) (hd : Definition.ofSchema s ignored = .ok d)
    {n : String} {decl : TypeDecl} (h : DeclaredAs d ps n decl) :
    ∃ t, Sdl.lastDef? (Sdl.typeDefs doc) n = some t ∧ decl.ident = exported n ∧ decl.isStruct = t.body.isRecord ∧
      ∀ ident, (∃ f ∈ decl.fields, f.type = .named "" ident) ↔
        ∃ e ∈ t.body.fieldTypes, Sdl.Embeds (Sdl.typeDefs doc) n ident e.2 := by
  obtain ⟨hemitted, ty, hty, rfl⟩ := h
  obtain ⟨ty', hty', hprim⟩ := ((d.emitted_iff n).1 hemitted).declarable
  rw [hty] at hty'
  cases hty'
  obtain ⟨t, refs, hlast, hleaf, hfields, hrefs⟩ := Definition.types_get?_ofDocument hs hd hty hprim
  exact ⟨t, hlast, TypeDecl.ident_ofDescriptor ps n ty, isStruct_eq_isRecord ps hleaf hfields hrefs,
    exists_named_field_iff ps hleaf hfields hrefs⟩

/-- Declared types hold each other by value exactly as their definitions nest. -/
theorem holds_iff_nestsEmitted (hs : Schema.ofDocument doc = .ok s) (hd : Definition.ofSchema s ignored = .ok d)
    {a b : String} {x y : TypeDecl} (hx : DeclaredAs d ps a x) (hy : DeclaredAs d ps b y) :
    (Package.ofDefinition d ps).Holds x y ↔ NestsEmitted doc d.emitted a b := by
  obtain ⟨t, ht, -, -, hembeds⟩ := hx.lastDef hs hd
  obtain ⟨u, hu, hident, hstruct, -⟩ := hy.lastDef hs hd
  have hxmem := (Package.mem_types_iff d ps x).2 ⟨a, hx⟩
  have hymem := (Package.mem_types_iff d ps y).2 ⟨b, hy⟩
  simp only [Package.Holds, NestsEmitted, Sdl.Nests, ht, hu, hident, hstruct, hembeds, hxmem, hymem, hx.1, hy.1,
    Option.mem_def, Option.some.injEq, exists_eq_left', true_and]

/-- Emitted types that nest in a cycle make a structure that holds itself. -/
theorem not_finite_of_cycle (hs : Schema.ofDocument doc = .ok s) (hd : Definition.ofSchema s ignored = .ok d) {n : String}
    (hcycle : Relation.TransGen (NestsEmitted doc d.emitted) n n) (ps : Primitives) :
    ¬ (Package.ofDefinition d ps).Finite := by
  intro hfinite
  obtain ⟨decl, hdecl⟩ := cycle_of_simulation (D := DeclaredAs d ps)
    (fun _ _ _ _ hx hy => (holds_iff_nestsEmitted hs hd hx hy).2) (fun _ _ h => exists_declaredAs h.1 ps) hcycle
  exact hfinite decl hdecl

end Sizes

/-- All structures of the client of a document have a finite size exactly if no emitted type nests itself through other
emitted types. -/
theorem structs_finite_iff (doc : Sdl.Document) (s : Schema) (ignored : IgnoreList) (d : Definition) (ps : Primitives)
    (hs : Schema.ofDocument doc = .ok s) (hd : Definition.ofSchema s ignored = .ok d) :
    (Package.ofDefinition d ps).Finite ↔ ∀ n, ¬ Relation.TransGen (NestsEmitted doc d.emitted) n n := by
  constructor
  · intro hfinite n hcycle
    exact not_finite_of_cycle hs hd hcycle ps hfinite
  · intro hacyclic decl hcycle
    obtain ⟨n, hn⟩ := cycle_of_simulation (D := fun decl n => DeclaredAs d ps n decl)
      (fun _ _ _ _ hx hy => (holds_iff_nestsEmitted hs hd hx hy).1)
      (fun x _ h => (Package.mem_types_iff d ps x).1 h.1) hcycle
    exact hacyclic n hn

/-- Persons with a parent, an address and children, and addresses with the persons who live there. -/
def familyDocument : Sdl.Document :=
  [.type ⟨none, "Query", .object [⟨none, "person", [], .named "Person"⟩]⟩,
    .type ⟨none, "Person", .object [⟨none, "parent", [], .named "Person"⟩, ⟨none, "address", [], .named "Address"⟩,
      ⟨none, "children", [], .list (.nonNull (.named "Person"))⟩]⟩,
    .type ⟨none, "Address", .object [⟨none, "street", [], .named "String"⟩,
      ⟨none, "residents", [], .nonNull (.list (.nonNull (.named "Person")))⟩]⟩]

/-- Persons refer to themselves and to addresses, which list persons; the structures have finite sizes. -/
theorem family_structs_finite :
    ∃ s d, Schema.ofDocument familyDocument = .ok s ∧ Definition.ofSchema s IgnoreList.builtin = .ok d ∧
      (∀ n, ¬ Relation.TransGen (NestsEmitted familyDocument d.emitted) n n) ∧
      ∀ ps, (Package.ofDefinition d ps).Finite := by
  -- every step goes down in the order of the query, persons and addresses
  let rank : String → Nat := fun n => if n = "Query" then 2 else if n = "Person" then 1 else 0
  have hrank : ∀ a ∈ (Sdl.typeDefs familyDocument).map Sdl.TypeDef.name,
      ∀ b ∈ (Sdl.typeDefs familyDocument).map Sdl.TypeDef.name,
        Sdl.Nests (Sdl.typeDefs familyDocument) a b → rank b < rank a := by
    decide
  have hacyclic : ∀ emitted n, ¬ Relation.TransGen (NestsEmitted familyDocument emitted) n n := by
    intro emitted n hcycle
    have hdescends : ∀ a b, NestsEmitted familyDocument emitted a b → rank b < rank a := fun a b h =>
      hrank a h.2.2.mem_names.1 b h.2.2.mem_names.2 h.2.2
    have hpath := hcycle.lift (p := fun i j => j < i) rank hdescends
    rw [Relation.transGen_eq_self] at hpath
    exact Nat.lt_irrefl _ hpath
  exact ⟨_, _, rfl, rfl, hacyclic _, fun ps => (structs_finite_iff familyDocument _ _ _ ps rfl rfl).2 (hacyclic _)⟩

/-- Authors with a book, and books with an author. -/
def bookshopDocument : Sdl.Document :=
  [.type ⟨none, "Query", .object [⟨none, "author", [], .named "Author"⟩]⟩,
    .type ⟨none, "Author", .object [⟨none, "book", [], .named "Book"⟩]⟩,
    .type ⟨none, "Book", .object [⟨none, "author", [], .named "Author"⟩]⟩]

/-- An author holds a book by value, and a book an author. -/
theorem bookshop_structs_infinite :
    ∃ s d, Schema.ofDocument bookshopDocument = .ok s ∧ Definition.ofSchema s IgnoreList.builtin = .ok d ∧
      ∀ ps, ¬ (Package.ofDefinition d ps).Finite := by
  obtain ⟨s, d, hs, hd, hroot, hauthor, hrefers, hbook⟩ :
      ∃ s d, Schema.ofDocument bookshopDocument = .ok s ∧ Definition.ofSchema s IgnoreList.builtin = .ok d ∧
        "Author" ∈ d.required.keys ∧ d.model.Declarable "Author" ∧ d.model.Refers "Author" "Book" ∧
        d.model.Declarable "Book" :=
    ⟨_, _, rfl, rfl, by decide, ⟨_, rfl, rfl⟩, ⟨_, rfl, by decide⟩, ⟨_, rfl, rfl⟩⟩
  have hreached : d.model.Reached d.required.keys "Author" := .root hroot hauthor
  have hemitted := (d.emitted_iff "Author").2 hreached
  have hemitted' := (d.emitted_iff "Book").2 (.step hreached hrefers hbook)
  have hcycle : Relation.TransGen (NestsEmitted bookshopDocument d.emitted) "Author" "Author" :=
    .tail (.single ⟨hemitted, hemitted', by decide⟩) ⟨hemitted', hemitted, by decide⟩
  exact ⟨s, d, hs, hd, not_finite_of_cycle hs hd hcycle⟩

end Go

end SdkLoom
