import SdkLoom.Proofs.Maps
import SdkLoom.Schema.Index

/-!
# What a reference is described as

A reference is a chain of wrappers around a leaf. Its descriptor keeps the name and the kind of the leaf, but of the
wrappers only three flags, so it can spell one list layer. The main statement (`signature_keeps_outermost_list`) says which
reference the flags spell: the one that is left when all list layers but the outermost are erased.
-/

namespace SdkLoom

namespace TypeRef

/-! ## The parts of a reference -/

/-- The reference inside of all wrappers. -/
def leaf : TypeRef → TypeRef
  | ⟨.nonNull, _, some inner⟩ => inner.leaf
  | ⟨.list, _, some item⟩ => item.leaf
  | r => r

/-- Whether a reference is no wrapper of another one. -/
def isLeaf : TypeRef → Bool
  | ⟨.nonNull, _, some _⟩ => false
  | ⟨.list, _, some _⟩ => false
  | _ => true

/-- Whether a reference has a non-null mark as its outermost wrapper. -/
def marked : TypeRef → Bool
  | ⟨.nonNull, none, some _⟩ => true
  | _ => false

/-- The number of list layers of a chain of nameless wrappers. -/
def listDepth : TypeRef → Nat
  | ⟨.nonNull, none, some inner⟩ => inner.listDepth
  | ⟨.list, none, some item⟩ => item.listDepth + 1
  | _ => 0

/-- The GraphQL spelling of a chain of nameless wrappers: brackets for a list, an exclamation mark for non-null. -/
def spelling : TypeRef → String
  | ⟨.nonNull, none, some inner⟩ => inner.spelling ++ "!"
  | ⟨.list, none, some item⟩ => "[" ++ item.spelling ++ "]"
  | r => r.name.getD ""

/-- The leaf of a reference, with a non-null mark if the reference has one as its outermost wrapper. -/
def markedLeaf (r : TypeRef) : TypeRef := if r.marked then .nonNull r.leaf else r.leaf

/-- The reference with its outermost list layer only: the marks around that layer and directly inside of it stay, all
list layers further inside go, and the marks inside of those go with them. -/
def outermostList : TypeRef → TypeRef
  | ⟨.nonNull, none, some inner⟩ => .nonNull inner.outermostList
  | ⟨.list, none, some item⟩ => .list item.markedLeaf
  | r => r

/-- A chain of nameless wrappers around a named leaf in which no non-null mark is directly inside of another. -/
inductive Chain : TypeRef → Prop where
  | leaf {r : TypeRef} (name : String) : r.name = some name → r.isLeaf = true → Chain r
  | list {item : TypeRef} : Chain item → Chain (.list item)
  | nonNull {inner : TypeRef} : Chain inner → inner.marked = false → Chain (.nonNull inner)

@[simp] theorem leaf_list (item : TypeRef) : (TypeRef.list item).leaf = item.leaf := rfl

@[simp] theorem leaf_nonNull (inner : TypeRef) : (TypeRef.nonNull inner).leaf = inner.leaf := rfl

@[simp] theorem marked_list (item : TypeRef) : (TypeRef.list item).marked = false := rfl

@[simp] theorem marked_nonNull (inner : TypeRef) : (TypeRef.nonNull inner).marked = true := rfl

@[simp] theorem listDepth_list (item : TypeRef) : (TypeRef.list item).listDepth = item.listDepth + 1 := rfl

@[simp] theorem listDepth_nonNull (inner : TypeRef) : (TypeRef.nonNull inner).listDepth = inner.listDepth := rfl

@[simp] theorem spelling_list (item : TypeRef) : (TypeRef.list item).spelling = "[" ++ item.spelling ++ "]" := rfl

@[simp] theorem spelling_nonNull (inner : TypeRef) : (TypeRef.nonNull inner).spelling = inner.spelling ++ "!" := rfl

@[simp] theorem outermostList_list (item : TypeRef) :
    (TypeRef.list item).outermostList = .list item.markedLeaf := rfl

@[simp] theorem outermostList_nonNull (inner : TypeRef) :
    (TypeRef.nonNull inner).outermostList = .nonNull inner.outermostList := rfl

theorem isLeaf_of_ne {r : TypeRef} (hnonNull : ∀ name inner, r ≠ ⟨.nonNull, name, some inner⟩)
    (hlist : ∀ name item, r ≠ ⟨.list, name, some item⟩) : r.isLeaf = true := by
  unfold isLeaf
  split
  · exact absurd rfl (hnonNull _ _)
  · exact absurd rfl (hlist _ _)
  · rfl

/-- The reference inside of all wrappers is no wrapper. -/
theorem isLeaf_leaf (r : TypeRef) : r.leaf.isLeaf = true := by
  fun_induction leaf r with
  | case1 _ _ ih => exact ih
  | case2 _ _ ih => exact ih
  | case3 r hnonNull hlist => exact isLeaf_of_ne hnonNull hlist

/-- On a reference that is no wrapper, all parts are read off its name. -/
theorem parts_of_isLeaf {r : TypeRef} (h : r.isLeaf = true) :
    r.leaf = r ∧ r.marked = false ∧ r.listDepth = 0 ∧ r.spelling = r.name.getD "" ∧ r.outermostList = r := by
  obtain ⟨kind, name, ofType⟩ := r
  cases ofType with
  | none => cases kind <;> cases name <;> exact ⟨rfl, rfl, rfl, rfl, rfl⟩
  | some inner =>
    cases kind with
    | nonNull => cases h
    | list => cases h
    | _ => exact ⟨rfl, rfl, rfl, rfl, rfl⟩

end TypeRef

/-! ## Descriptors of references -/

namespace Index

/-- What the innermost type of a reference is, given its kind and its name. -/
def leafOf (idx : Index) (kind : TypeKind) (name : String) : Leaf :=
  match kind with
  | .scalar => .primitive ((ScalarClass.ofScalar? name).getD .unknown)
  | .enum => .enum (idx.enumValues name)
  | .object => .object
  | .inputObject => .input
  | _ => .unknown

/-- Only scalars are primitive. -/
theorem isPrimitive_of_leaf {idx : Index} {kind : TypeKind} {name : String} {d : Descriptor}
    (h : d.leaf = idx.leafOf kind name) : d.isPrimitive = decide (kind = .scalar) := by
  rw [Descriptor.isPrimitive, h]
  cases kind <;> rfl

theorem describeRef_list (idx : Index) (item : TypeRef) :
    idx.describeRef (.list item) =
      { idx.describeRef item with subRequired := (idx.describeRef item).required, required := false, list := true } := rfl

theorem describeRef_nonNull (idx : Index) (inner : TypeRef) :
    idx.describeRef (.nonNull inner) = { idx.describeRef inner with required := true } := rfl

/-- A reference that is no wrapper is described by its name and kind alone. -/
theorem describeRef_of_isLeaf (idx : Index) {r : TypeRef} (h : r.isLeaf = true) :
    idx.describeRef r = .ofLeaf (r.name.getD "") (idx.leafOf r.kind (r.name.getD "")) := by
  obtain ⟨kind, name, ofType⟩ := r
  cases ofType with
  | none => cases kind <;> rfl
  | some inner =>
    cases kind with
    | nonNull => cases h
    | list => cases h
    | _ => rfl

/-- The descriptor of a reference has the name and the leaf of the reference inside of all wrappers, and no fields. -/
theorem describeRef_core (idx : Index) (r : TypeRef) :
    (idx.describeRef r).gqlType = r.leaf.name.getD "" ∧
      (idx.describeRef r).leaf = idx.leafOf r.leaf.kind (r.leaf.name.getD "") ∧ (idx.describeRef r).fields = none := by
  fun_induction TypeRef.leaf r with
  | case1 _ _ ih => exact ih
  | case2 _ _ ih => exact ih
  | case3 r hnonNull hlist =>
    rw [describeRef_of_isLeaf idx (TypeRef.isLeaf_of_ne hnonNull hlist)]
    exact ⟨rfl, rfl, rfl⟩

/-- Of an index a reference uses only the values of the enumeration that it names. -/
theorem describeRef_congr {idx idx' : Index} {r : TypeRef}
    (h : idx.enumValues (r.leaf.name.getD "") = idx'.enumValues (r.leaf.name.getD "")) :
    idx.describeRef r = idx'.describeRef r := by
  fun_induction TypeRef.leaf r with
  | case1 _ inner ih =>
    change { idx.describeRef inner with required := true } = { idx'.describeRef inner with required := true }
    rw [ih h]
  | case2 _ item ih =>
    change { idx.describeRef item with subRequired := (idx.describeRef item).required, required := false, list := true } =
      { idx'.describeRef item with subRequired := (idx'.describeRef item).required, required := false, list := true }
    rw [ih h]
  | case3 r hnonNull hlist =>
    have hr := TypeRef.isLeaf_of_ne hnonNull hlist
    rw [describeRef_of_isLeaf idx hr, describeRef_of_isLeaf idx' hr]
    simp only [leafOf, h]

/-- Of an index the remarks on a reference use only whether the name in it is defined. -/
theorem refNotes_congr {idx idx' : Index} {r : TypeRef}
    (h : idx.contains (r.leaf.name.getD "") = idx'.contains (r.leaf.name.getD "")) : idx.refNotes r = idx'.refNotes r := by
  fun_induction TypeRef.leaf r with
  | case1 _ inner ih => exact ih h
  | case2 _ item ih => exact ih h
  | case3 r hnonNull hlist =>
    obtain ⟨kind, name, ofType⟩ := r
    cases kind with
    | enum =>
      change (if idx.contains _ then _ else _) = if idx'.contains _ then _ else _
      rw [h]
    | nonNull =>
      cases ofType with
      | none => rfl
      | some inner => exact absurd rfl (hnonNull name inner)
    | list =>
      cases ofType with
      | none => rfl
      | some item => exact absurd rfl (hlist name item)
    | _ => rfl

end Index

/-! ## Spelling -/

namespace TypeRef

/-- The base name of a chain is the name of its leaf. -/
theorem Chain.baseName {r : TypeRef} (h : r.Chain) : r.baseName = some (r.leaf.name.getD "") := by
  induction h with
  | @leaf r name hname hleaf =>
    rw [(parts_of_isLeaf hleaf).1, hname]
    obtain ⟨kind, rname, ofType⟩ := r
    cases hname
    rfl
  | list _ ih => exact ih
  | nonNull _ _ ih => exact ih

/-- Of the flags of a descriptor, `required` is the outermost mark of the chain. -/
theorem Chain.required {r : TypeRef} (h : r.Chain) (idx : Index) : (idx.describeRef r).required = r.marked := by
  cases h with
  | leaf _ _ hleaf =>
    rw [idx.describeRef_of_isLeaf hleaf, (parts_of_isLeaf hleaf).2.1]
    rfl
  | list _ => rfl
  | nonNull _ _ => rfl

/-- The leaf of a chain, with its mark or without, is spelled by its name. -/
theorem spelling_markedLeaf (r : TypeRef) :
    r.markedLeaf.spelling = r.leaf.name.getD "" ++ (if r.marked then "!" else "") := by
  have hleaf : r.leaf.spelling = r.leaf.name.getD "" := (parts_of_isLeaf r.isLeaf_leaf).2.2.2.1
  unfold markedLeaf
  cases r.marked <;> simp [hleaf]

/-- The signature of a descriptor spells the chain with its outermost list layer only. -/
theorem Chain.signature {r : TypeRef} (h : r.Chain) (idx : Index) :
    (idx.describeRef r).signature = r.outermostList.spelling := by
  induction h with
  | leaf _ _ hleaf =>
    obtain ⟨-, -, -, hspelling, houter⟩ := parts_of_isLeaf hleaf
    rw [idx.describeRef_of_isLeaf hleaf, houter, hspelling]
    simp [Descriptor.signature, Descriptor.ofLeaf]
  | @list item hitem ih =>
    rw [outermostList_list, spelling_list, spelling_markedLeaf, ← hitem.required idx, ← (idx.describeRef_core item).1,
      idx.describeRef_list]
    simp [Descriptor.signature, String.append_assoc]
  | @nonNull inner hinner hmark ih =>
    have hrequired : (idx.describeRef inner).required = false := (hinner.required idx).trans hmark
    rw [outermostList_nonNull, spelling_nonNull, ← ih, idx.describeRef_nonNull]
    simp [Descriptor.signature, hrequired]

/-- A chain without list layers is its marked leaf. -/
theorem Chain.markedLeaf_eq {r : TypeRef} (h : r.Chain) (hdepth : r.listDepth = 0) : r.markedLeaf = r := by
  cases h with
  | leaf _ _ hleaf =>
    obtain ⟨hl, hm, -⟩ := parts_of_isLeaf hleaf
    simp [markedLeaf, hl, hm]
  | list _ => simp at hdepth
  | @nonNull inner hinner hmark =>
    -- no mark is directly inside of a mark, so without a list layer the next reference is the leaf
    cases hinner with
    | leaf _ _ hleaf => simp [markedLeaf, (parts_of_isLeaf hleaf).1]
    | list _ => simp at hdepth
    | nonNull _ _ => simp at hmark

/-- Each list layer that is erased makes the spelling shorter. -/
theorem Chain.length_markedLeaf_le {r : TypeRef} (h : r.Chain) :
    r.markedLeaf.spelling.length + r.listDepth ≤ r.spelling.length := by
  have hbracket : "[".length = 1 ∧ "]".length = 1 ∧ "!".length = 1 := ⟨rfl, rfl, rfl⟩
  induction h with
  | leaf _ _ hleaf =>
    obtain ⟨hl, hm, hd, -, -⟩ := parts_of_isLeaf hleaf
    simp [markedLeaf, hl, hm, hd]
  | @list item _ ih =>
    simp only [spelling_markedLeaf, String.length_append, leaf_list, marked_list, listDepth_list, spelling_list] at ih ⊢
    simp only [Bool.false_eq_true, if_false, String.length_empty]
    omega
  | @nonNull inner _ hmark ih =>
    simp only [spelling_markedLeaf, String.length_append, leaf_nonNull, marked_nonNull, listDepth_nonNull,
      spelling_nonNull, if_true] at ih ⊢
    omega

/-- The outermost list layer is all of a chain exactly if the chain has at most one. -/
theorem Chain.spelling_outermostList_iff {r : TypeRef} (h : r.Chain) :
    r.outermostList.spelling = r.spelling ↔ r.listDepth ≤ 1 := by
  induction h with
  | leaf _ _ hleaf =>
    obtain ⟨-, -, hd, -, ho⟩ := parts_of_isLeaf hleaf
    simp [hd, ho]
  | @list item hitem _ =>
    rw [outermostList_list, spelling_list, spelling_list, listDepth_list]
    constructor
    · intro heq
      have hlen := congrArg String.length heq
      simp only [String.length_append] at hlen
      have := hitem.length_markedLeaf_le
      omega
    · intro hdepth
      rw [hitem.markedLeaf_eq (by omega)]
  | @nonNull inner _ _ ih =>
    rw [outermostList_nonNull, spelling_nonNull, spelling_nonNull, listDepth_nonNull, String.append_left_inj]
    exact ih

end TypeRef

/-- A chain is described by its base name and without fields, and its signature spells the chain with its outermost list
layer only. So the signature is the spelling of the reference exactly if this has at most one list layer. -/
theorem signature_keeps_outermost_list (idx : Index) (r : TypeRef) (h : r.Chain) :
    r.baseName = some (idx.describeRef r).gqlType ∧ (idx.describeRef r).fields = none ∧
      (idx.describeRef r).signature = r.outermostList.spelling ∧
      ((idx.describeRef r).signature = r.spelling ↔ r.listDepth ≤ 1) := by
  obtain ⟨hname, -, hfields⟩ := idx.describeRef_core r
  refine ⟨by rw [h.baseName, hname], hfields, h.signature idx, ?_⟩
  rw [h.signature idx]
  exact h.spelling_outermostList_iff

/-- A list of lists loses its inner layer: the mark on that layer is spelled as a mark on the items. -/
theorem signature_of_nested_list :
    TypeRef.Chain (.nonNull (.list (.nonNull (.list (.named .object "User"))))) ∧
      (Index.describeRef ∅ (.nonNull (.list (.nonNull (.list (.named .object "User")))))).signature = "[User!]!" ∧
      TypeRef.spelling (.nonNull (.list (.nonNull (.list (.named .object "User"))))) = "[[User]!]!" ∧
      (Index.describeRef ∅ (.nonNull (.list (.nonNull (.list (.named .object "User")))))).signature ≠ "[[User]!]!" := by
  have h : TypeRef.Chain (.nonNull (.list (.nonNull (.list (.named .object "User"))))) :=
    .nonNull (.list (.nonNull (.list (.leaf "User" rfl rfl)) rfl)) rfl
  obtain ⟨-, -, hsignature, hiff⟩ := signature_keeps_outermost_list ∅ _ h
  have hspelling : TypeRef.spelling (.nonNull (.list (.nonNull (.list (.named .object "User"))))) = "[[User]!]!" := by
    decide
  refine ⟨h, hsignature.trans (by decide), hspelling, fun heq => ?_⟩
  have hdepth := hiff.1 (heq.trans hspelling.symm)
  exact absurd hdepth (by decide)

end SdkLoom
