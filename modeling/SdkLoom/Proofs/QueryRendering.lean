import SdkLoom.Proofs.DefaultSelections

/-!
# Rendered queries

The text of an operation has a placeholder where its result is selected from, and what is sent has a selection in its place.
Whether there is a placeholder is told by the result, what is selected by default by the fields that the type of the result
has; where the schema is coherent the two agree. Names have neither a placeholder nor braces in them, so the text has the
placeholder once at most, and what is sent has neither a placeholder nor a block with nothing in it
(`default_selection_fills_placeholder`).
-/

namespace SdkLoom

/-! ## Blocks -/

namespace Sdl

open Token (isNameChar isSkipped)

/-- Whether a text has a block with nothing in it: between an opening brace and a closing one are only characters that are
skipped. -/
def hasEmptyBlock : List Char → Bool
  | [] => false
  | c :: rest => c == '\x7b' && (rest.dropWhile isSkipped).head? == some '\x7d' || hasEmptyBlock rest

/-- What has no opening brace starts no block. -/
theorem hasEmptyBlock_append {a : List Char} (h : '\x7b' ∉ a) (b : List Char) :
    hasEmptyBlock (a ++ b) = hasEmptyBlock b := by
  induction a with
  | nil => rfl
  | cons x a ih =>
    rw [List.mem_cons, not_or] at h
    obtain ⟨hx, ha⟩ := h
    rw [List.cons_append, hasEmptyBlock, ih ha, beq_eq_false_iff_ne.2 (Ne.symm hx), Bool.false_and, Bool.false_or]

/-- A character of names is neither skipped nor a brace. -/
theorem ne_of_isNameChar {c : Char} (h : isNameChar c = true) : isSkipped c = false ∧ c ≠ '\x7b' ∧ c ≠ '\x7d' := by
  have hne : ∀ {x : Char}, isNameChar x = false → c ≠ x := by
    rintro x hx rfl
    rw [h] at hx
    cases hx
  refine ⟨?_, hne rfl, hne rfl⟩
  simp only [isSkipped, Bool.or_eq_false_iff, beq_eq_false_iff_ne]
  exact ⟨⟨⟨⟨⟨hne rfl, hne rfl⟩, hne rfl⟩, hne rfl⟩, hne rfl⟩, hne rfl⟩

/-- A block that starts with a name has something in it. -/
theorem hasEmptyBlock_block {n : String} (hn : isName n = true) (b : List Char) :
    hasEmptyBlock (" \x7b ".toList ++ (n.toList ++ b)) = hasEmptyBlock b := by
  have hchars := isNameChar_of_isName hn
  have hbrace : '\x7b' ∉ n.toList := fun hmem => (ne_of_isNameChar (hchars _ hmem)).2.1 rfl
  have hblock : hasEmptyBlock (" \x7b ".toList ++ (n.toList ++ b)) = hasEmptyBlock (n.toList ++ b) := by
    cases hcons : n.toList with
    | nil => simp [isName, hcons] at hn
    | cons c rest =>
      obtain ⟨hskipped, -, hclosing⟩ := ne_of_isNameChar (hchars c (hcons ▸ List.mem_cons_self))
      have hspace : isSkipped ' ' = true := rfl
      simp [hasEmptyBlock, List.dropWhile_cons, hspace, hskipped, hclosing]
  rw [hblock, hasEmptyBlock_append hbrace]

/-- A block of names has something in it. -/
theorem hasEmptyBlock_names {names : List String} (hne : names ≠ []) (hnames : ∀ n ∈ names, isName n = true)
    (b : List Char) :
    hasEmptyBlock (" \x7b ".toList ++ ((String.intercalate " " names).toList ++ b)) = hasEmptyBlock b := by
  obtain ⟨n, rest, rfl⟩ := List.exists_cons_of_ne_nil hne
  have hbrace : '\x7b' ∉ (String.intercalate " " (n :: rest)).toList := by
    intro hmem
    rcases Text.mem_intercalate hmem with hmem | ⟨m, hm, hmem⟩
    · exact absurd hmem (by decide)
    · exact (ne_of_isNameChar (isNameChar_of_isName (hnames m hm) _ hmem)).2.1 rfl
  have hn := hnames n List.mem_cons_self
  cases rest with
  | nil => rw [String.intercalate_singleton, hasEmptyBlock_block hn]
  | cons m rest =>
    rw [String.intercalate_cons_cons, String.append_assoc, String.toList_append] at hbrace ⊢
    rw [List.append_assoc, hasEmptyBlock_block hn, hasEmptyBlock_append]
    exact fun hmem => hbrace (List.mem_append_right _ hmem)

end Sdl

/-! ## Texts of headings -/

namespace Operation

namespace Heading

/-- What a text has before its first brace. -/
def signature (h : Heading) : String := h.kind.code ++ parenthesized (h.args.map variableDefinition)

/-- The root field with its arguments. -/
def call (h : Heading) : String := h.name ++ parenthesized ((h.args.map Prod.fst).map rootArgument)

/-- What a text has before its selection. -/
def opening (h : Heading) : String := h.signature ++ " \x7b " ++ h.call

/-- What a text has after the root field, with a selection in the place of the placeholder. -/
def closing (h : Heading) (fields : String) : String :=
  (if h.selects then " \x7b " ++ fields ++ " \x7d" else "") ++ " \x7d"

theorem text_eq (h : Heading) : h.text = h.opening ++ h.closing selectionPlaceholder := by
  simp only [text, opening, closing, signature, call, selection, String.append_assoc]

/-- The placeholder starts with a character that names and the marks between them lack. -/
theorem toList_selectionPlaceholder : selectionPlaceholder.toList = '@' :: "selections@".toList := rfl

/-- The characters of a text outside of its braces: those of names, and the marks between them. -/
def isHeadingChar (c : Char) : Bool := Sdl.Token.isNameChar c || "$:!, ()[]".toList.contains c

theorem isHeadingChar_of_mem_parenthesized {items : List String}
    (h : ∀ i ∈ items, ∀ c ∈ i.toList, isHeadingChar c = true) :
    ∀ c ∈ (parenthesized items).toList, isHeadingChar c = true := by
  intro c hc
  unfold parenthesized at hc
  split at hc
  · cases hc
  · simp only [String.toList_append, List.mem_append] at hc
    rcases hc with (hc | hc) | hc
    · rw [List.mem_singleton.1 hc]
      rfl
    · rcases Text.mem_intercalate hc with hc | ⟨i, hi, hc⟩
      · have hsep : ", ".toList.all isHeadingChar = true := by decide
        exact List.all_eq_true.1 hsep c hc
      · exact h i hi c hc
    · rw [List.mem_singleton.1 hc]
      rfl

namespace Legible

variable {h : Heading} (hl : h.Legible)

include hl

theorem isHeadingChar_signature : ∀ c ∈ h.signature.toList, isHeadingChar c = true := by
  intro c hc
  rw [signature, String.toList_append, List.mem_append] at hc
  rcases hc with hc | hc
  · have hcode : h.kind.code.toList.all isHeadingChar = true := by
      cases h.kind <;> decide
    exact List.all_eq_true.1 hcode c hc
  · refine isHeadingChar_of_mem_parenthesized (fun i hi c hc => ?_) c hc
    obtain ⟨a, ha, rfl⟩ := List.mem_map.1 hi
    simp only [variableDefinition, String.toList_append, List.mem_append] at hc
    have hmarks : ("$".toList ++ ": ".toList ++ ['[', ']', '!']).all isHeadingChar = true := by decide
    rw [List.all_eq_true] at hmarks
    rcases hc with ((hc | hc) | hc) | hc
    · exact hmarks c (List.mem_append_left _ (List.mem_append_left _ hc))
    · simp [isHeadingChar, hl.args a ha c hc]
    · exact hmarks c (List.mem_append_left _ (List.mem_append_right _ hc))
    · rcases hl.types a ha c hc with hc | hc
      · simp [isHeadingChar, hc]
      · exact hmarks c (List.mem_append_right _ hc)

theorem isHeadingChar_call : ∀ c ∈ h.call.toList, isHeadingChar c = true := by
  intro c hc
  rw [call, String.toList_append, List.mem_append] at hc
  rcases hc with hc | hc
  · simp [isHeadingChar, hl.name c hc]
  · refine isHeadingChar_of_mem_parenthesized (fun i hi c hc => ?_) c hc
    obtain ⟨n, hn, rfl⟩ := List.mem_map.1 hi
    obtain ⟨a, ha, rfl⟩ := List.mem_map.1 hn
    simp only [rootArgument, String.toList_append, List.mem_append] at hc
    rcases hc with (hc | hc) | hc
    · simp [isHeadingChar, hl.args a ha c hc]
    · have hmarks : ": $".toList.all isHeadingChar = true := by decide
      exact List.all_eq_true.1 hmarks c hc
    · simp [isHeadingChar, hl.args a ha c hc]

/-- The character at the ends of the placeholder does not stand before the selection. -/
theorem at_not_mem_opening : '@' ∉ h.opening.toList := by
  simp only [opening, String.toList_append, List.mem_append, not_or]
  refine ⟨⟨fun hc => ?_, by decide⟩, fun hc => ?_⟩
  · cases hl.isHeadingChar_signature _ hc
  · cases hl.isHeadingChar_call _ hc

/-- A text has the placeholder once, if its result is selected from, and else it does not have it. -/
theorem count_text : Text.count h.text selectionPlaceholder = if h.selects then 1 else 0 := by
  rw [text_eq, Text.count, String.toList_append, toList_selectionPlaceholder,
    Text.occurrences_append hl.at_not_mem_opening, closing]
  -- what is left is one of two fixed texts
  cases h.selects <;> decide

/-- Replacing the first placeholder of a text fills its selection. -/
theorem replaceFirst_text (fields : String) :
    Text.replaceFirst h.text selectionPlaceholder fields = h.opening ++ h.closing fields := by
  rw [text_eq, ← String.toList_inj, Text.replaceFirst, String.toList_ofList, String.toList_append, String.toList_append,
    toList_selectionPlaceholder, Text.replaceNext_append hl.at_not_mem_opening, closing, closing]
  refine congrArg _ ?_
  cases h.selects with
  | false => simp [Text.replaceNext, List.isPrefixOf]
  | true =>
    have hbrace : '@' ∉ " \x7b ".toList := by decide
    rw [if_pos rfl, if_pos rfl, String.append_assoc, String.append_assoc, String.toList_append, String.toList_append,
      toList_selectionPlaceholder, Text.replaceNext_append hbrace, Text.replaceNext_front (List.cons_ne_nil _ _)]
    simp

/-- A selection without the character at the ends of the placeholder leaves no placeholder. -/
theorem contains_filled {fields : String} (hfields : '@' ∉ fields.toList) :
    Text.contains (h.opening ++ h.closing fields) selectionPlaceholder = false := by
  refine Text.contains_eq_false_of_not_mem (c := '@') (by decide) ?_
  rw [String.toList_append, List.mem_append, not_or, closing]
  refine ⟨hl.at_not_mem_opening, ?_⟩
  cases h.selects <;> simp [hfields]

/-- With names selected, or without a selection, the text of a named operation has no block with nothing in it. -/
theorem hasEmptyBlock_filled (hname : Sdl.isName h.name = true) {names : List String}
    (hne : h.selects = true → names ≠ []) (hnames : ∀ n ∈ names, Sdl.isName n = true) :
    Sdl.hasEmptyBlock (h.opening ++ h.closing (String.intercalate " " names)).toList = false := by
  have hsignature : '\x7b' ∉ h.signature.toList := fun hc => by cases hl.isHeadingChar_signature _ hc
  -- the only braces are that of the root field, which has a name, and that of the selection, which has names
  have hargs : '\x7b' ∉ (parenthesized ((h.args.map Prod.fst).map rootArgument)).toList := by
    intro hc
    have hmem : '\x7b' ∈ h.call.toList := by
      rw [call, String.toList_append]
      exact List.mem_append_right _ hc
    cases hl.isHeadingChar_call _ hmem
  simp only [opening, call, String.append_assoc, String.toList_append]
  rw [Sdl.hasEmptyBlock_append hsignature, Sdl.hasEmptyBlock_block hname, Sdl.hasEmptyBlock_append hargs, closing]
  cases hselects : h.selects with
  | false =>
    rw [if_neg Bool.false_ne_true]
    decide
  | true =>
    rw [if_pos rfl, String.append_assoc, String.append_assoc, String.toList_append, String.toList_append,
      Sdl.hasEmptyBlock_names (hne hselects) hnames]
    rfl

end Legible

end Heading

/-- The text that is sent for an operation with some selections, or with the default ones if none are given: they take the
place of the first placeholder. -/
def render (op : Operation) (selections : List String) : String :=
  Text.replaceFirst op.queryText selectionPlaceholder
    (String.intercalate " " (if selections.isEmpty then op.defaultSelection else selections))

end Operation

/-! ## Operations of documents -/

/-- The names of the primitive fields of a type. -/
def Descriptor.primitiveNames (ty : Descriptor) : List String :=
  (List.filter (fun (f : String × Descriptor) => f.2.isPrimitive) ty.fieldList).map Prod.fst

/-- A result is selected from exactly if it is neither a scalar nor an enumeration. -/
theorem Index.hasSelection_of_leaf {idx : Index} {kind : TypeKind} {name : String} {d : Descriptor}
    (h : d.leaf = idx.leafOf kind name) : d.hasSelection = decide (¬ (kind = .scalar ∨ kind = .enum)) := by
  rw [Descriptor.hasSelection, Descriptor.isPrimitive, Descriptor.isEnum, h]
  cases kind <;> rfl

theorem TypeDef.members_eq_nil {t : TypeDef} (h : t.kind = .scalar ∨ t.kind = .enum) : t.members = [] := by
  unfold TypeDef.members
  rcases h with h | h
  · rw [h]
  · rw [h]

theorem TypeDef.MembersNamed.isName_of_mem {t : TypeDef} (h : t.MembersNamed) {f : FieldDef} (hf : f ∈ t.members) :
    Sdl.isName f.name = true := by
  rcases TypeDef.mem_members hf with hf | ⟨v, hv, hname, -⟩
  · exact (h.fields f hf).name
  · rw [← hname]
    exact h.inputFields v hv

namespace Definition

section Documents

variable {text : String} {s : Schema} {ignored : IgnoreList} {d : Definition} {op : Operation}

/-- Nothing is selected by default exactly if the result is not selected from. -/
theorem defaultSelection_eq_nil_iff (hs : s.Coherent) (hd : ofSchema s ignored = .ok d) (hop : op ∈ d.catalog.operations) :
    op.defaultSelection = [] ↔ op.method.returnType.hasSelection = false := by
  obtain ⟨t, -, ht, hleaf⟩ := exists_resultOf hs hd hop
  unfold Operation.defaultSelection
  cases hselection : op.method.returnType.hasSelection with
  | true =>
    rw [Bool.and_true]
    split
    next => simp
    next hfields => simpa using hfields
  | false =>
    -- a scalar or an enumeration declares no fields
    have hkind : t.kind = .scalar ∨ t.kind = .enum := by
      rw [Index.hasSelection_of_leaf hleaf] at hselection
      simpa [or_iff_not_imp_left] using hselection
    have hnone : op.scalarFields = [] := by
      rw [scalarFields_eq hd hop ht, TypeDef.members_eq_nil hkind]
      rfl
    simp [hnone]

/-- The operations of a text's schema select names by default. -/
theorem isName_of_mem_defaultSelection (hs : Schema.ofSdl text = .ok s) (hd : ofSchema s ignored = .ok d)
    (hop : op ∈ d.catalog.operations) : ∀ n ∈ op.defaultSelection, Sdl.isName n = true := by
  intro n hn
  by_cases htypename : n = typenameField
  · rw [htypename]
    decide
  · have hcoherent := Schema.coherent_ofSdl hs
    obtain ⟨t, -, ht, -⟩ := exists_resultOf hcoherent hd hop
    rw [op.mem_defaultSelection_iff htypename, mem_scalarFields_iff hcoherent hd hop ht] at hn
    obtain ⟨f, hf, -⟩ := hn
    obtain ⟨hmem, hname⟩ := lastField?_eq_some hf
    have hvalue : t ∈ s.index.values := (s.index.mem_values_iff t).2 ⟨_, ht⟩
    rw [← hname]
    exact (Schema.named_of_ofSdl hs (Schema.mem_types_of_index hvalue)).isName_of_mem hmem

/-- Whatever names are selected, by the caller or by default, take the place of the placeholder, and no block is left with
nothing in it. -/
theorem render_of_names (hs : Schema.ofSdl text = .ok s) (hd : ofSchema s ignored = .ok d)
    (hop : op ∈ d.catalog.operations) {selections : List String} (hnames : ∀ n ∈ selections, Sdl.isName n = true) :
    Text.contains (op.render selections) selectionPlaceholder = false ∧
      Sdl.hasEmptyBlock (op.render selections).toList = false := by
  have hlegible := (Schema.wellNamed_ofSdl hs).legible hd hop
  have hname : Sdl.isName op.heading.name = true := by
    obtain ⟨r, hr, hquery, -⟩ := rootField_of_mem_operations hd hop
    rw [Operation.heading, hquery]
    exact (Schema.rootNamed_ofSdl hs hr).name
  rw [Operation.render, op.queryText_eq, hlegible.replaceFirst_text]
  generalize hsent : (if selections.isEmpty then op.defaultSelection else selections) = sent
  have hsentNames : ∀ n ∈ sent, Sdl.isName n = true := by
    rw [← hsent]
    split
    · exact isName_of_mem_defaultSelection hs hd hop
    · exact hnames
  have hsome : op.heading.selects = true → sent ≠ [] := by
    rintro hselects rfl
    split at hsent
    next =>
      have hnone := (defaultSelection_eq_nil_iff (Schema.coherent_ofSdl hs) hd hop).1 hsent
      exact absurd (hnone.symm.trans hselects) (by decide)
    next hempty => exact hempty (by rw [hsent]; rfl)
  refine ⟨hlegible.contains_filled fun hmem => ?_, hlegible.hasEmptyBlock_filled hname hsome hsentNames⟩
  rcases Text.mem_intercalate hmem with hmem | ⟨n, hn, hmem⟩
  · exact absurd hmem (by decide)
  · cases Sdl.isNameChar_of_isName (hsentNames n hn) _ hmem

end Documents

end Definition

/-- The file of the queries has the declarations of all operations. -/
theorem Go.Package.contains_queriesFile {p : Go.Package} {op : Operation} (hop : op ∈ p.operations) :
    Text.contains p.queriesFile (Go.queryDecl op) = true := by
  rw [Text.contains_iff, Go.Package.queriesFile, String.toList_append, String.toList_join, List.flatMap_map]
  have hdecl : (Go.queryDecl op).toList <:+: ("\n" ++ Go.queryDecl op).toList := by
    rw [String.toList_append]
    exact (List.suffix_append _ _).isInfix
  refine hdecl.trans (List.IsInfix.trans ?_ (List.suffix_append _ _).isInfix)
  exact List.infix_of_mem_flatten (List.mem_map_of_mem hop)

/-- For every operation of the client of a schema document, its text has the placeholder once if the schema gives it a result
that is neither a scalar nor an enumeration, and else not at all. The file of the queries has next to the text what is
selected by default. That is nothing exactly if there is no placeholder; else it is the names of the primitive fields of the
type of the result, in the order in which the schema declares them, or the type name if there are none. With what is selected
by default or with any other names, what is sent has no placeholder and no block with nothing in it. -/
theorem default_selection_fills_placeholder {text : String} {s : Schema} {ignored : IgnoreList} {d : Definition}
    {op : Operation} (hs : Schema.ofSdl text = .ok s) (hd : Definition.ofSchema s ignored = .ok d)
    (hop : op ∈ d.catalog.operations) (ps : Primitives) :
    ∃ t ty, s.resultOf? op.query.name = some t ∧ d.model.types.get? op.method.returnType.gqlType = some ty ∧
      Text.count op.queryText selectionPlaceholder = (if t.kind = .scalar ∨ t.kind = .enum then 0 else 1) ∧
      Text.contains (Go.Package.ofDefinition d ps).queriesFile
        ("var " ++ Go.queryVariable op.query.name ++ " = QueryAndFields\x7b" ++ Go.stringLiteral op.queryText ++
          ", []string\x7b" ++ String.intercalate ", " (op.defaultSelection.map Go.stringLiteral) ++ "\x7d\x7d\n") = true ∧
      (op.defaultSelection = [] ↔ Text.contains op.queryText selectionPlaceholder = false) ∧
      (op.defaultSelection ≠ [] →
        op.defaultSelection = if ty.primitiveNames = [] then [typenameField] else ty.primitiveNames) ∧
      OrderedMap.keys ty.fieldList = (t.members.map FieldDef.name).eraseDups ∧
      ∀ selections, (∀ n ∈ selections, Sdl.isName n = true) →
        Text.contains (op.render selections) selectionPlaceholder = false ∧
        Sdl.hasEmptyBlock (op.render selections).toList = false := by
  have hcoherent := Schema.coherent_ofSdl hs
  have hlegible := (Schema.wellNamed_ofSdl hs).legible hd hop
  obtain ⟨t, hresult, ht, hleaf⟩ := Definition.exists_resultOf hcoherent hd hop
  obtain ⟨ty, hty⟩ := Definition.types_get?_of_index hd ht
  have hselects : op.heading.selects = decide (¬ (t.kind = .scalar ∨ t.kind = .enum)) := Index.hasSelection_of_leaf hleaf
  have hcount : Text.count op.queryText selectionPlaceholder = if op.heading.selects then 1 else 0 := by
    rw [op.queryText_eq, hlegible.count_text]
  have hfields : op.scalarFields = ty.primitiveNames := by
    rw [Operation.scalarFields, Definition.query_fields hd hop hty, Descriptor.primitiveNames]
  refine ⟨t, ty, hresult, hty, ?_, Go.Package.contains_queriesFile hop, ?_, ?_, ?_, ?_⟩
  · rw [hcount, hselects]
    by_cases hkind : t.kind = .scalar ∨ t.kind = .enum <;> simp [hkind]
  · rw [Definition.defaultSelection_eq_nil_iff hcoherent hd hop, ← Text.count_eq_zero_iff (by decide), hcount,
      Operation.heading]
    cases op.method.returnType.hasSelection <;> simp
  · intro hne
    have hselection : op.method.returnType.hasSelection = true := by
      rw [← Bool.not_eq_false, ← Definition.defaultSelection_eq_nil_iff hcoherent hd hop]
      exact hne
    rw [Operation.defaultSelection, hselection, hfields]
    simp
  · rw [Definition.fieldList_eq hd hty ht, ← t.keys_refs, OrderedMap.keys, List.map_map]
    rfl
  · intro selections hnames
    exact Definition.render_of_names hs hd hop hnames

/-- A document with an operation that returns an object with fields of all kinds. -/
def shelfText : String :=
  "type Query \x7b item(id: ID!): Item \x7d enum Color \x7b RED \x7d " ++
  "type Item \x7b tags: [String!] color: Color owner: Item id: ID! \x7d"

/-- The item is selected from by its two scalar fields, and they take the place of the placeholder. -/
theorem shelf_placeholder_filled :
    ∃ s d op, Schema.ofSdl shelfText = .ok s ∧ Definition.ofSchema s IgnoreList.builtin = .ok d ∧
      op ∈ d.catalog.operations ∧ op.defaultSelection = ["tags", "id"] ∧
      op.render [] = "query($id: ID!) \x7b item(id: $id) \x7b tags id \x7d \x7d" ∧
      Text.contains op.queryText selectionPlaceholder = true ∧
      Text.contains (op.render []) selectionPlaceholder = false ∧ Sdl.hasEmptyBlock (op.render []).toList = false := by
  have htest : Go.definesWith (fun d => decide (∃ op ∈ d.catalog.operations, op.defaultSelection = ["tags", "id"] ∧
      op.render [] = "query($id: ID!) \x7b item(id: $id) \x7b tags id \x7d \x7d")) shelfText = true := by decide +kernel
  obtain ⟨s, d, hs, hd, htest⟩ := Go.exists_of_definesWith htest
  obtain ⟨op, hop, hselection, hsent⟩ := of_decide_eq_true htest
  obtain ⟨t, ty, -, -, -, -, hnone, -, -, hrender⟩ :=
    default_selection_fills_placeholder hs hd hop Target.goTarget.primitives
  have hplaceholder : Text.contains op.queryText selectionPlaceholder = true := by
    rw [← Bool.not_eq_false, ← hnone, hselection]
    decide
  exact ⟨s, d, op, hs, hd, hop, hselection, hsent, hplaceholder, hrender [] (by simp)⟩

end SdkLoom
