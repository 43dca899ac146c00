import SdkLoom.Proofs.Catalog
import SdkLoom.Proofs.GoDeclarations
import SdkLoom.Sdl.Token

/-!
# What a query text tells, and what the method of its operation sends

The text of an operation is put together from its kind, its name, its arguments with their spelled types, and from whether
its result is selected from: its heading. Where names are names of GraphQL, each part of the text ends at a character that
cannot belong to it, so the heading can be read off the text again (`Heading.text_injective`). The arguments are written
from the query side of the catalog, the request, the parameters and the hints of the call from the method side, and the two
name the same arguments (`query_text_agrees_with_call`).
-/

namespace SdkLoom

namespace Sdl

open Token (isNameStart isNameChar)

/-- Whether a text is a name of GraphQL. -/
def isName (s : String) : Bool :=
  match s.toList with
  | [] => false
  | c :: rest => isNameStart c && rest.all isNameChar

theorem isNameChar_of_isName {s : String} (h : isName s = true) : ∀ c ∈ s.toList, isNameChar c = true := by
  unfold isName at h
  split at h
  · cases h
  next first rest heq =>
    rw [Bool.and_eq_true, List.all_eq_true] at h
    intro c hc
    rw [heq] at hc
    rcases List.mem_cons.1 hc with rfl | hc
    · have hstart := h.1
      simp only [isNameStart, Bool.or_eq_true] at hstart
      simp only [isNameChar, Char.isAlphanum, Bool.or_eq_true]
      exact hstart.imp_left .inl
    · exact h.2 c hc

end Sdl

/-! ## Cutting a text where a class of characters ends -/

section Cutting

variable {p : Char → Bool}

/-- What precedes the end of a class of characters, and what follows it, are told by the whole. -/
theorem cut_unique {a b x y : List Char} (ha : ∀ c ∈ a, p c = true) (hb : ∀ c ∈ b, p c = true)
    (hx : ∀ c ∈ x.head?, p c = false) (hy : ∀ c ∈ y.head?, p c = false) (h : a ++ x = b ++ y) : a = b ∧ x = y := by
  have hcut : ∀ {l z : List Char}, (∀ c ∈ l, p c = true) → (∀ c ∈ z.head?, p c = false) → (l ++ z).takeWhile p = l := by
    intro l z hl hz
    rw [List.takeWhile_append_of_pos hl]
    cases z with
    | nil => simp
    | cons c z => rw [List.takeWhile_cons_of_neg (by simp [hz c rfl]), List.append_nil]
  have hab : a = b := by rw [← hcut ha hx, h, hcut hb hy]
  subst hab
  exact ⟨rfl, List.append_cancel_left h⟩

theorem cut_unique_cons {a b x y : List Char} {c c' : Char} (ha : ∀ c ∈ a, p c = true) (hb : ∀ c ∈ b, p c = true)
    (hc : p c = false) (hc' : p c' = false) (h : a ++ c :: x = b ++ c' :: y) : a = b ∧ c = c' ∧ x = y := by
  obtain ⟨hab, htail⟩ := cut_unique ha hb (by simp [hc]) (by simp [hc']) h
  exact ⟨hab, List.cons.inj htail⟩

/-- The items of a list that is closed by a mark are told by the whole, if neither the mark nor the start of the separator
can stand in an item. -/
theorem intercalate_unique {sep : List Char} {d e : Char} (hd : p d = false) (he : p e = false) (hde : d ≠ e)
    {items items' : List (List Char)} {a b x y : List Char} (hitems : ∀ l ∈ a :: items, ∀ c ∈ l, p c = true)
    (hitems' : ∀ l ∈ b :: items', ∀ c ∈ l, p c = true)
    (h : (d :: sep).intercalate (a :: items) ++ e :: x = (d :: sep).intercalate (b :: items') ++ e :: y) :
    a :: items = b :: items' ∧ x = y := by
  induction items generalizing a b items' with
  | nil =>
    have ha := hitems a List.mem_cons_self
    have hb := hitems' b List.mem_cons_self
    cases items' with
    | nil =>
      rw [List.intercalate_singleton, List.intercalate_singleton] at h
      obtain ⟨rfl, -, hxy⟩ := cut_unique_cons ha hb he he h
      exact ⟨rfl, hxy⟩
    | cons b' rest' =>
      rw [List.intercalate_singleton, List.intercalate_cons_cons, List.append_assoc, List.append_assoc,
        List.cons_append] at h
      exact absurd (cut_unique_cons ha hb he hd h).2.1.symm hde
  | cons a' rest ih =>
    have ha := hitems a List.mem_cons_self
    have hb := hitems' b List.mem_cons_self
    cases items' with
    | nil =>
      rw [List.intercalate_singleton, List.intercalate_cons_cons, List.append_assoc, List.append_assoc,
        List.cons_append] at h
      exact absurd (cut_unique_cons ha hb hd he h).2.1 hde
    | cons b' rest' =>
      rw [List.intercalate_cons_cons, List.intercalate_cons_cons, List.append_assoc, List.append_assoc, List.append_assoc,
        List.append_assoc, List.cons_append, List.cons_append] at h
      obtain ⟨rfl, -, hrest⟩ := cut_unique_cons ha hb hd hd h
      obtain ⟨htail, hxy⟩ := ih (fun l hl => hitems l (List.mem_cons_of_mem _ hl))
        (fun l hl => hitems' l (List.mem_cons_of_mem _ hl)) (List.append_cancel_left hrest)
      exact ⟨by rw [htail], hxy⟩

end Cutting

/-! ## Headings -/

namespace Operation

/-- What the text of an operation is made of: the arguments have their spelled types with them. -/
structure Heading where
  kind : OperationKind
  name : String
  args : List (String × String)
  selects : Bool
  deriving DecidableEq

/-- The heading of an operation. -/
def heading (op : Operation) : Heading where
  kind := op.query.kind
  name := op.query.name
  args := List.map (fun (a : String × Descriptor) => (a.1, a.2.signature)) op.query.args
  selects := op.method.returnType.hasSelection

namespace Heading

/-- The definition of the variable of an argument. -/
def variableDefinition (a : String × String) : String := "$" ++ a.1 ++ ": " ++ a.2

/-- The argument of a root field that has the value of its variable. -/
def rootArgument (n : String) : String := n ++ ": $" ++ n

/-- The selection of a result, with the placeholder for its fields. -/
def selection (selects : Bool) : String := if selects then " \x7b " ++ selectionPlaceholder ++ " \x7d" else ""

/-- The text of a heading. -/
def text (h : Heading) : String :=
  h.kind.code ++ parenthesized (h.args.map variableDefinition) ++ " \x7b " ++ h.name ++
    parenthesized ((h.args.map Prod.fst).map rootArgument) ++ selection h.selects ++ " \x7d"

/-- Names are made of the characters of names, and spelled types of these and of the marks of lists and of non-null types. -/
structure Legible (h : Heading) : Prop where
  name : ∀ c ∈ h.name.toList, Sdl.Token.isNameChar c = true
  args : ∀ a ∈ h.args, ∀ c ∈ a.1.toList, Sdl.Token.isNameChar c = true
  types : ∀ a ∈ h.args, ∀ c ∈ a.2.toList, Sdl.Token.isNameChar c = true ∨ c ∈ ['[', ']', '!']

/-- Whether a character can stand between the commas of a list in parentheses. -/
def isItemChar (c : Char) : Bool := c != ',' && c != ')'

theorem isItemChar_of_isNameChar {c : Char} (h : Sdl.Token.isNameChar c = true) : isItemChar c = true := by
  rw [isItemChar, Bool.and_eq_true, bne_iff_ne, bne_iff_ne]
  constructor
  · rintro rfl
    cases h
  · rintro rfl
    cases h

theorem toList_parenthesized_cons (i : String) (rest : List String) (z : List Char) :
    (parenthesized (i :: rest)).toList ++ z =
      '(' :: ((", ".toList).intercalate (i.toList :: rest.map String.toList) ++ ')' :: z) := by
  simp [parenthesized, String.toList_intercalate]

/-- Items in parentheses are told by a text that starts with them, if what follows starts with no parenthesis. -/
theorem parenthesized_unique {items items' : List String} {x y : List Char}
    (hitems : ∀ l ∈ items, ∀ c ∈ l.toList, isItemChar c = true)
    (hitems' : ∀ l ∈ items', ∀ c ∈ l.toList, isItemChar c = true) (hx : x.head? ≠ some '(') (hy : y.head? ≠ some '(')
    (h : (parenthesized items).toList ++ x = (parenthesized items').toList ++ y) : items = items' ∧ x = y := by
  match items, items' with
  | [], [] => exact ⟨rfl, h⟩
  | [], b :: rest' =>
    rw [toList_parenthesized_cons] at h
    exact absurd (congrArg List.head? h) hx
  | a :: rest, [] =>
    rw [toList_parenthesized_cons] at h
    exact absurd (congrArg List.head? h).symm hy
  | a :: rest, b :: rest' =>
    rw [toList_parenthesized_cons, toList_parenthesized_cons] at h
    have hmap : ∀ {l : List String}, (∀ i ∈ l, ∀ c ∈ i.toList, isItemChar c = true) →
        ∀ i ∈ l.map String.toList, ∀ c ∈ i, isItemChar c = true := by
      intro l hl i hi
      obtain ⟨j, hj, rfl⟩ := List.mem_map.1 hi
      exact hl j hj
    obtain ⟨hlists, hxy⟩ := intercalate_unique (d := ',') (e := ')') (by decide) (by decide) (by decide) (hmap hitems)
      (hmap hitems') (List.cons.inj h).2
    exact ⟨List.map_injective_iff.2 (fun _ _ => String.toList_inj.1) hlists, hxy⟩

/-- An argument is told by the definition of its variable. -/
theorem variableDefinition_unique {a b : String × String} (ha : ∀ c ∈ a.1.toList, Sdl.Token.isNameChar c = true)
    (hb : ∀ c ∈ b.1.toList, Sdl.Token.isNameChar c = true) (h : variableDefinition a = variableDefinition b) : a = b := by
  have hlists := congrArg String.toList h
  simp only [variableDefinition, String.toList_append, List.append_assoc] at hlists
  have hcolon : ∀ z : List Char, ∀ c ∈ (": ".toList ++ z).head?, Sdl.Token.isNameChar c = false := by
    rintro z c ⟨⟩
    rfl
  obtain ⟨hname, htail⟩ := cut_unique ha hb (hcolon _) (hcolon _) (List.append_cancel_left hlists)
  exact Prod.ext (String.toList_inj.1 hname) (String.toList_inj.1 (List.append_cancel_left htail))

/-- No comma and no closing parenthesis stands in the definition of a variable. -/
theorem Legible.isItemChar_of_mem {h : Heading} (hl : h.Legible) {l : String} (hmem : l ∈ h.args.map variableDefinition) :
    ∀ c ∈ l.toList, isItemChar c = true := by
  obtain ⟨a, ha, rfl⟩ := List.mem_map.1 hmem
  intro c hc
  simp only [variableDefinition, String.toList_append, List.mem_append] at hc
  rcases hc with ((hc | hc) | hc) | hc
  · rw [List.mem_singleton.1 hc]
    rfl
  · exact isItemChar_of_isNameChar (hl.args a ha c hc)
  · have hcolon : ": ".toList.all isItemChar = true := by decide
    exact List.all_eq_true.1 hcolon c hc
  · rcases hl.types a ha c hc with hc | hc
    · exact isItemChar_of_isNameChar hc
    · have hmarks : ['[', ']', '!'].all isItemChar = true := by decide
      exact List.all_eq_true.1 hmarks c hc

/-- The arguments are told by the definitions of their variables. -/
theorem args_unique {args args' : List (String × String)}
    (hargs : ∀ a ∈ args, ∀ c ∈ a.1.toList, Sdl.Token.isNameChar c = true)
    (hargs' : ∀ a ∈ args', ∀ c ∈ a.1.toList, Sdl.Token.isNameChar c = true)
    (h : args.map variableDefinition = args'.map variableDefinition) : args = args' := by
  induction args generalizing args' with
  | nil => exact (List.map_eq_nil_iff.1 h.symm).symm
  | cons a rest ih =>
    obtain ⟨b, rest', rfl, hhead, htail⟩ := List.map_eq_cons_iff.1 h.symm
    rw [variableDefinition_unique (hargs a List.mem_cons_self) (hargs' b List.mem_cons_self) hhead.symm,
      ih (fun a ha => hargs a (List.mem_cons_of_mem _ ha)) (fun a ha => hargs' a (List.mem_cons_of_mem _ ha)) htail.symm]

/-- What follows the name in a text starts with a parenthesis or a space. -/
theorem head_after_name (items : List String) (selects : Bool) :
    ∀ c ∈ ((parenthesized items).toList ++ ((selection selects).toList ++ " \x7d".toList)).head?,
      Sdl.Token.isNameChar c = false := by
  cases items with
  | nil =>
    cases selects
    all_goals
      rintro c ⟨⟩
      rfl
  | cons i rest =>
    rw [toList_parenthesized_cons]
    rintro c ⟨⟩
    rfl

/-- Headings that are legible are told by their texts. -/
theorem text_injective {h h' : Heading} (hl : h.Legible) (hl' : h'.Legible) (heq : h.text = h'.text) : h = h' := by
  obtain ⟨kind, name, args, selects⟩ := h
  obtain ⟨kind', name', args', selects'⟩ := h'
  have hlists := congrArg String.toList heq
  simp only [text, String.toList_append, List.append_assoc] at hlists
  have hkind : kind = kind' := by
    cases kind <;> cases kind'
    · rfl
    · exact absurd (List.cons.inj hlists).1 (by decide)
    · exact absurd (List.cons.inj hlists).1 (by decide)
    · rfl
  subst hkind
  have hspace : ∀ z : List Char, (" \x7b ".toList ++ z).head? ≠ some '(' := by
    intro z hz
    cases hz
  obtain ⟨hdefs, hrest⟩ := parenthesized_unique (fun _ hm => hl.isItemChar_of_mem hm) (fun _ hm => hl'.isItemChar_of_mem hm)
    (hspace _) (hspace _) (List.append_cancel_left hlists)
  have hargs : args = args' := args_unique hl.args hl'.args hdefs
  subst hargs
  obtain ⟨hname, hrest⟩ := cut_unique hl.name hl'.name (head_after_name _ _) (head_after_name _ _)
    (List.append_cancel_left hrest)
  have hselection := List.append_cancel_right (List.append_cancel_left hrest)
  have hselects : selects = selects' := by
    cases selects <;> cases selects'
    · rfl
    · cases hselection
    · cases hselection
    · rfl
  have hnames : name = name' := String.toList_inj.1 hname
  rw [hselects, hnames]

end Heading

/-- The text of an operation is that of its heading. -/
theorem queryText_eq (op : Operation) : op.queryText = op.heading.text := by
  simp only [queryText, variableDefinitions, rootArguments, OrderedMap.keys, Heading.text, heading, List.map_map]
  rfl

/-- Items in parentheses, of which there are none if another list of the same length has none. -/
theorem parenthesized_eq {items names : List String} (h : items.length = names.length) :
    parenthesized items = if names = [] then "" else "(" ++ String.intercalate ", " items ++ ")" := by
  simp only [parenthesized, List.isEmpty_iff_length_eq_zero, h, List.length_eq_zero_iff]

/-- A text starts with the keyword of mutations exactly if it is that of a mutation. -/
theorem startsWith_queryText (op : Operation) :
    Text.startsWith op.queryText "mutation" = true ↔ op.query.kind = .mutation := by
  simp only [Text.startsWith, queryText, String.toList_append, List.append_assoc, List.isPrefixOf_iff_prefix]
  cases op.query.kind with
  | query => exact iff_of_false (fun ⟨_, hrest⟩ => by cases hrest) (by decide)
  | mutation => exact iff_of_true (List.prefix_append _ _) rfl

end Operation

/-! ## Operations of a schema -/

/-- The operations of a schema and their arguments have names of GraphQL, and so have the types of the arguments, as far as
these have names. -/
structure Schema.WellNamed (s : Schema) : Prop where
  operations : ∀ f ∈ s.queryFields ++ s.mutationFields, Sdl.isName f.name = true
  arguments : ∀ f ∈ s.queryFields ++ s.mutationFields, ∀ v ∈ f.args, Sdl.isName v.name = true
  types : ∀ f ∈ s.queryFields ++ s.mutationFields, ∀ v ∈ f.args, ∀ n ∈ v.type.leaf.name, Sdl.isName n = true

/-- A spelled type has the characters of the type name and marks. -/
theorem Descriptor.mem_signature {d : Descriptor} {c : Char} (h : c ∈ d.signature.toList) :
    c ∈ d.gqlType.toList ∨ c ∈ ['[', ']', '!'] := by
  simp only [signature] at h
  split_ifs at h <;> simp at h ⊢ <;> tauto

section Operations

variable {s : Schema} {ignored : IgnoreList} {d : Definition} {op : Operation}

/-- Both sides of an operation are made of the last root field of its name. -/
theorem Definition.lastField_of_mem_operations (hd : Definition.ofSchema s ignored = .ok d)
    (hop : op ∈ d.catalog.operations) :
    ∃ r : RootField, lastField? (s.queryFields ++ s.mutationFields) op.query.name = some r.field ∧
      op.query = r.queryEntry s.index (Model.ofIndex s.index ignored) ∧ op.method = r.method s.index := by
  obtain ⟨rs, hrs, hcatalog, -, -⟩ := Definition.ofSchema_eq_ok hd
  rw [hcatalog, (Catalog.operations_perm _ _ _).mem_iff] at hop
  obtain ⟨e, he, rfl⟩ := List.mem_map.1 hop
  have hname : (e.2.queryEntry s.index (Model.ofIndex s.index ignored)).name = e.1 := RootField.name_of_mem_byName he
  rw [Schema.rootFields_eq_ok hrs] at he
  exact ⟨e.2, by rw [hname]; exact RootField.lastField?_of_mem_byName he, rfl, rfl⟩

/-- Both sides of an operation are made of one root field. -/
theorem Definition.rootField_of_mem_operations (hd : Definition.ofSchema s ignored = .ok d)
    (hop : op ∈ d.catalog.operations) :
    ∃ r : RootField, r.field ∈ s.queryFields ++ s.mutationFields ∧
      op.query = r.queryEntry s.index (Model.ofIndex s.index ignored) ∧ op.method = r.method s.index := by
  obtain ⟨r, hlast, hsides⟩ := Definition.lastField_of_mem_operations hd hop
  exact ⟨r, List.mem_reverse.1 (List.mem_of_find?_eq_some hlast), hsides⟩

/-- The operations of a well named schema have legible headings. -/
theorem Schema.WellNamed.legible (hs : s.WellNamed) (hd : Definition.ofSchema s ignored = .ok d)
    (hop : op ∈ d.catalog.operations) : op.heading.Legible := by
  obtain ⟨r, hr, hquery, -⟩ := Definition.rootField_of_mem_operations hd hop
  have harg : ∀ a ∈ op.heading.args, ∃ v ∈ r.field.args, a = (v.name, (s.index.describeRef v.type).signature) := by
    intro a ha
    rw [Operation.heading, hquery] at ha
    obtain ⟨e, he, rfl⟩ := List.mem_map.1 ha
    obtain ⟨v, hv, rfl⟩ := List.mem_map.1 (OrderedMap.mem_of_mem_ofEntries he)
    exact ⟨v, hv, rfl⟩
  refine { name := ?_, args := ?_, types := ?_ }
  · rw [Operation.heading, hquery]
    exact Sdl.isNameChar_of_isName (hs.operations _ hr)
  · intro a ha
    obtain ⟨v, hv, rfl⟩ := harg a ha
    exact Sdl.isNameChar_of_isName (hs.arguments _ hr v hv)
  · intro a ha c hc
    obtain ⟨v, hv, rfl⟩ := harg a ha
    refine (Descriptor.mem_signature hc).imp_left fun hc => ?_
    rw [(s.index.describeRef_core v.type).1] at hc
    cases hname : v.type.leaf.name with
    | none =>
      rw [hname] at hc
      exact absurd hc List.not_mem_nil
    | some n =>
      rw [hname] at hc
      exact Sdl.isNameChar_of_isName (hs.types _ hr v hv n hname) c hc

end Operations

/-! ## The call of an operation -/

/-- A style writes exactly if it is that of a mutation. -/
theorem CallStyle.isMutation_ofName (name : String) (kind : OperationKind) :
    (CallStyle.ofName name kind).isMutation = true ↔ kind = .mutation := by
  cases kind with
  | query =>
    refine iff_of_false ?_ (by decide)
    simp only [CallStyle.ofName]
    split_ifs <;> decide
  | mutation =>
    refine iff_of_true ?_ rfl
    simp only [CallStyle.ofName]
    split_ifs <;> rfl

namespace CallPlan

theorem style_ofMethod (m : Method) : (ofMethod m).style = CallStyle.ofName m.name m.kind := by
  unfold ofMethod
  dsimp only
  split <;> rfl

/-- A plan looks nothing up, or it looks up one of the arguments as the key, or one that is no offset as the filter. -/
theorem hints_ofMethod (m : Method) :
    ((ofMethod m).key = none ∧ (ofMethod m).filter = none) ∨
      ∃ n ∈ OrderedMap.keys m.args, ((ofMethod m).key = some n ∧ (ofMethod m).filter = none) ∨
        n ≠ "offset" ∧ (ofMethod m).key = none ∧ (ofMethod m).filter = some n := by
  unfold ofMethod
  dsimp only
  split
  · cases hkey : (OrderedMap.keys m.args).head? with
    | none => exact .inl ⟨rfl, rfl⟩
    | some n => exact .inr ⟨n, List.mem_of_head? hkey, .inl ⟨rfl, rfl⟩⟩
  · cases hfilter : (OrderedMap.keys m.args).find? fun n => n != "offset" with
    | none => exact .inl ⟨rfl, rfl⟩
    | some n =>
      have hn := List.find?_some hfilter
      exact .inr ⟨n, List.mem_of_find?_eq_some hfilter, .inr ⟨by simpa using hn, rfl, rfl⟩⟩
  · exact .inl ⟨rfl, rfl⟩

end CallPlan

namespace Go

/-- A structure literal with the given fields. -/
def structLiteral (ident : String) (fields : List (String × String)) : String :=
  ident ++ "\x7b" ++ String.intercalate ", " (fields.map fun f => f.1 ++ ": " ++ f.2) ++ "\x7d"

/-- A function sends an operation with arguments of some names. The text of the operation defines a variable for each argument
and gives its value to the root field. These are the arguments that the request and the function are declared with, in the same
order, and the function fills the field of the request for each from its parameter. It calls the executor's method for the text.
What it tells the executor about the call has an argument and its parameter as the key and its value, or an argument that is no
offset as the filter, or neither. -/
structure Sends (op : Operation) (names : List String) (f : FunctionDecl) : Prop where
  distinct : names.Nodup
  query : ∃ types : List String, types.length = names.length ∧ op.queryText = op.query.kind.code ++
    (if names = [] then "" else
      "(" ++ String.intercalate ", " (List.zipWith (fun n type => "$" ++ n ++ ": " ++ type) names types) ++ ")") ++
    " \x7b " ++ op.query.name ++
    (if names = [] then "" else "(" ++ String.intercalate ", " (names.map fun n => n ++ ": $" ++ n) ++ ")") ++
    (if op.method.returnType.hasSelection then " \x7b @selections@ \x7d" else "") ++ " \x7d"
  name : op.method.name = op.query.name
  arguments : OrderedMap.keys op.method.args = names
  body : ∃ hints,
    f.body =
      [.define "request" (structLiteral (exported op.query.name ++ "Request") (names.map fun n => (exported n, param n))),
        .define "meta" (structLiteral "CallMeta" ([("Name", stringLiteral op.query.name),
          ("Type", stringLiteral op.plan.style.tag), ("Model", stringLiteral op.plan.model)] ++ hints)),
        .declare "response" (exported op.query.name ++ "Response"),
        .define "err" ("s.Executor." ++ (if Text.startsWith op.queryText "mutation" then "Mutate" else "Query") ++ "(ctx, " ++
          queryVariable op.query.name ++ ".Render(selections...), request, meta, &response)"),
        .results ["response." ++ exported op.query.name, "err"]] ∧
    (hints = [] ∨ ∃ n ∈ names, hints = [("Key", stringLiteral n), ("Value", param n)] ∨
      n ≠ "offset" ∧ hints = [("By", stringLiteral n)])

/-- The hints of a call are those of its plan. -/
theorem MethodDecl.metaText_hints (m : MethodDecl) {names : List String}
    (h : (m.plan.key = none ∧ m.plan.filter = none) ∨ ∃ n ∈ names, (m.plan.key = some n ∧ m.plan.filter = none) ∨
      n ≠ "offset" ∧ m.plan.key = none ∧ m.plan.filter = some n) :
    ∃ hints, m.metaText = structLiteral "CallMeta" ([("Name", stringLiteral m.name),
        ("Type", stringLiteral m.plan.style.tag), ("Model", stringLiteral m.plan.model)] ++ hints) ∧
      (hints = [] ∨ ∃ n ∈ names, hints = [("Key", stringLiteral n), ("Value", param n)] ∨
        n ≠ "offset" ∧ hints = [("By", stringLiteral n)]) := by
  rcases h with ⟨hkey, hfilter⟩ | ⟨n, hn, ⟨hkey, hfilter⟩ | ⟨hoffset, hkey, hfilter⟩⟩
  · refine ⟨[], ?_, .inl rfl⟩
    rw [metaText, hkey, hfilter]
    rfl
  · refine ⟨_, ?_, .inr ⟨n, hn, .inl rfl⟩⟩
    rw [metaText, hkey, hfilter]
    rfl
  · refine ⟨_, ?_, .inr ⟨n, hn, .inr ⟨hoffset, rfl⟩⟩⟩
    rw [metaText, hkey, hfilter]
    rfl

/-- The fields of the request with the parameters that fill them are those of a structure literal. -/
theorem MethodDecl.request_ofOperation (ps : Primitives) (op : Operation) :
    (ofOperation ps op).requestIdent ++ "\x7b" ++ (ofOperation ps op).assignments ++ "\x7d" =
      structLiteral (exported op.method.name ++ "Request")
        ((OrderedMap.keys op.method.args).map fun n => (exported n, param n)) := by
  rw [structLiteral, assignments, ofOperation, OrderedMap.keys, List.map_map, List.map_map, List.map_map]
  rfl

/-- The executor's method for an operation is that for its text. -/
theorem MethodDecl.executorCall_ofOperation (ps : Primitives) {op : Operation} (hkind : op.query.kind = op.method.kind) :
    (ofOperation ps op).executorCall = if Text.startsWith op.queryText "mutation" then "Mutate" else "Query" := by
  have hstyle : (ofOperation ps op).plan.style.isMutation = true ↔ Text.startsWith op.queryText "mutation" = true := by
    rw [op.startsWith_queryText, hkind, ofOperation, Operation.plan, CallPlan.style_ofMethod, CallStyle.isMutation_ofName]
  rw [executorCall, Bool.eq_iff_iff.2 hstyle]

/-- An operation whose two sides agree on its name, its kind and its arguments is sent by its method. -/
theorem sends_ofOperation (ps : Primitives) {op : Operation} (hname : op.method.name = op.query.name)
    (hkind : op.query.kind = op.method.kind) (hargs : op.method.args = op.query.args)
    (hdistinct : OrderedMap.Distinct op.method.args) :
    Sends op (OrderedMap.keys op.query.args) (MethodDecl.ofOperation ps op).function where
  distinct := hargs ▸ hdistinct
  query := by
    refine ⟨List.map (fun (a : String × Descriptor) => a.2.signature) op.query.args, ?_, ?_⟩
    · rw [OrderedMap.keys, List.length_map, List.length_map]
    · have hdefinitions : op.variableDefinitions = List.zipWith (fun n type => "$" ++ n ++ ": " ++ type)
          (OrderedMap.keys op.query.args) (List.map (fun (a : String × Descriptor) => a.2.signature) op.query.args) := by
        rw [OrderedMap.keys, List.zipWith_map, List.zipWith_self]
        rfl
      rw [Operation.queryText, hdefinitions, Operation.parenthesized_eq, Operation.parenthesized_eq]
      · rfl
      · rw [OrderedMap.keys, Operation.rootArguments, OrderedMap.keys, List.length_map]
      · rw [← hdefinitions, Operation.variableDefinitions, OrderedMap.keys, List.length_map, List.length_map]
  name := hname
  arguments := by rw [hargs]
  body := by
    obtain ⟨hints, hmeta, hhints⟩ :=
      (MethodDecl.ofOperation ps op).metaText_hints (CallPlan.hints_ofMethod op.method)
    refine ⟨hints, ?_, hargs ▸ hhints⟩
    rw [← hname, ← hargs, ← MethodDecl.request_ofOperation ps op, ← MethodDecl.executorCall_ofOperation ps hkind]
    exact congrArg (fun text => [_, Statement.define "meta" text, _, _, _]) hmeta

end Go

/-- For operations of schemas with names of GraphQL, query texts are equal exactly if the headings are: the kinds, the names,
the names of the arguments in order with their spelled types, and whether the results are selected from. The file of the client
declares a method for every operation, which sends it: its text agrees with the query text on the names of the arguments, in
the request as in the parameters, and on whether it is a mutation. -/
theorem query_text_agrees_with_call :
    (∀ (s s' : Schema) (ignored ignored' : IgnoreList) (d d' : Definition), s.WellNamed → s'.WellNamed →
      Definition.ofSchema s ignored = .ok d → Definition.ofSchema s' ignored' = .ok d' →
      ∀ op ∈ d.catalog.operations, ∀ op' ∈ d'.catalog.operations,
        op.queryText = op'.queryText ↔ op.heading = op'.heading) ∧
    ∀ (s : Schema) (ignored : IgnoreList) (d : Definition) (ps : Primitives) (module : String),
      Definition.ofSchema s ignored = .ok d → Go.DeclaresOperations d ps module fun op text =>
        ∃ f, Go.DeclaresMethod ps op f text ∧ Go.Sends op (OrderedMap.keys op.query.args) f := by
  constructor
  · intro s s' ignored ignored' d d' hs hs' hd hd' op hop op' hop'
    rw [op.queryText_eq, op'.queryText_eq]
    exact ⟨Operation.Heading.text_injective (hs.legible hd hop) (hs'.legible hd' hop'), congrArg _⟩
  · intro s ignored d ps module hd
    refine Go.declaresOperations_files (fun op hop => ⟨_, Go.declaresMethod_ofOperation ps op, ?_⟩) module
    obtain ⟨r, -, hquery, hmethod⟩ := Definition.rootField_of_mem_operations hd hop
    refine Go.sends_ofOperation ps ?_ ?_ ?_ ?_
    · rw [hquery, hmethod]
      rfl
    · rw [hquery, hmethod]
      rfl
    · rw [hquery, hmethod]
      rfl
    · rw [hmethod]
      exact OrderedMap.distinct_ofEntries _

/-- A schema of users: one is got by its id, some are found page by page, and one is renamed, by an argument that is named
like a keyword. -/
def rosterSchema : Schema where
  queryType := none
  mutationType := some "Mutation"
  subscriptionType := none
  types :=
    [⟨.object, "Query", none, some
        [⟨"getUser", none, [⟨"id", none, .nonNull (.named .scalar "ID"), none⟩], .named .object "User"⟩,
          ⟨"findUsers", none, [⟨"offset", none, .named .scalar "Int", none⟩,
            ⟨"names", none, .list (.nonNull (.named .scalar "String")), none⟩], .named .object "UserPage"⟩], none, none⟩,
      ⟨.object, "Mutation", none, some
        [⟨"renameUser", none, [⟨"type", none, .named .scalar "String", none⟩], .named .scalar "Boolean"⟩], none, none⟩,
      ⟨.object, "User", none, some [⟨"id", none, [], .named .scalar "ID"⟩], none, none⟩,
      ⟨.object, "UserPage", none, some [⟨"users", none, [], .list (.named .object "User")⟩], none, none⟩]

/-- The users are found by their names, after the offset, in the text as in the call. -/
theorem roster_text_agrees_with_call :
    rosterSchema.WellNamed ∧ ∃ d, Definition.ofSchema rosterSchema ∅ = .ok d ∧
      (∀ op ∈ d.catalog.operations, ∀ op' ∈ d.catalog.operations,
        op.queryText = op'.queryText ↔ op.heading = op'.heading) ∧
      (∀ ps module, Go.DeclaresOperations d ps module fun op text =>
        ∃ f, Go.DeclaresMethod ps op f text ∧ Go.Sends op (OrderedMap.keys op.query.args) f) ∧
      ∃ op ∈ d.catalog.operations, OrderedMap.keys op.query.args = ["offset", "names"] ∧
        op.queryText = "query($offset: Int, $names: [String!]) \x7b findUsers(offset: $offset, names: $names) \x7b " ++
          "@selections@ \x7d \x7d" ∧
        op.plan = { style := .find, model := "User", key := none, filter := some "names" } := by
  have hs : rosterSchema.WellNamed := by
    refine ⟨by decide, by decide, by decide⟩
  obtain ⟨hunique, hsends⟩ := query_text_agrees_with_call
  have hd : Definition.ofSchema rosterSchema ∅ = .ok _ := rfl
  refine ⟨hs, _, hd, hunique _ _ ∅ ∅ _ _ hs hs hd hd, fun ps module => hsends _ ∅ _ ps module hd, ?_⟩
  have hop := (Catalog.operations_perm rosterSchema.index (Model.ofIndex rosterSchema.index ∅)
    (RootField.ofRoots rosterSchema.queryFields rosterSchema.mutationFields)).symm.subset
      (List.mem_cons_of_mem _ List.mem_cons_self)
  exact ⟨_, hop, by decide, by decide, by decide⟩

end SdkLoom
