import SdkLoom.Go.Package
import SdkLoom.Proofs.Emitted

/-!
# Go declarations as they are written

What the files of a client say, told from the definition and by the grammar of the language. A row of aligned cells is a line
of words (`words_rowText`), a structure has one such line for each field, and a type is declared as a structure, as an
enumeration with its constants, or by another type (`declaresType_ofDescriptor`). An operation has two structures and a
function (`declaresMethod_ofOperation`). The files hold the declarations one after the other, and nothing else
(`declaresExactly_typesFile`, `declaresOperations_files`).
-/

namespace SdkLoom.Go

/-! ## Lines of words -/

/-- A text has some words in order, with spaces between them. -/
inductive Words : List String → String → Prop where
  | last (w : String) : Words [w] w
  | next {w : String} {ws : List String} {text : String} (gap : Nat) (h : Words ws text) :
      Words (w :: ws) (w ++ String.ofList (List.replicate (gap + 1) ' ') ++ text)

/-- A text has a line after a tab for each list of words. -/
def Rows (rows : List (List String)) (text : String) : Prop :=
  ∃ line : List String → String, (∀ row ∈ rows, Words row (line row)) ∧
    text = String.join (rows.map fun row => "\t" ++ line row ++ "\n")

/-- The text of a row has its cells as words. -/
theorem words_rowText (rows : List (List String)) (k : Nat) {row : List String} (h : row ≠ []) :
    Words row (rowText rows k row) := by
  induction row generalizing k with
  | nil => exact absurd rfl h
  | cons cell rest ih =>
    cases rest with
    | nil => exact .last cell
    | cons next rest =>
      have hpad : padCell cell (columnWidth rows k) ++ " " =
          cell ++ String.ofList (List.replicate (columnWidth rows k - cell.length + 1) ' ') := by
        rw [← String.toList_inj]
        simp [padCell, List.replicate_succ']
      rw [rowText, hpad]
      · exact .next _ (ih (k + 1) (List.cons_ne_nil _ _))
      · exact List.cons_ne_nil _ _

/-- Items that each have cells are lines of these in aligned rows. -/
theorem rows_columns {α : Type} {cells : α → List String} (h : ∀ a, cells a ≠ []) (items : List α) :
    Rows (items.map cells) (columns (items.map cells)) := by
  refine ⟨rowText (items.map cells) 0, fun row hrow => words_rowText _ 0 ?_, rfl⟩
  obtain ⟨a, -, rfl⟩ := List.mem_map.1 hrow
  exact h a

/-! ## Structures and types -/

/-- How a type is written: a list as a slice, and what refers to its owner and is no list as a pointer, of a scalar as the table
spells it, or else of the exported name after a qualifier. -/
def typeSpelling (ps : Primitives) (qualifier : String) (owner : Option String) (ty : Descriptor) : String :=
  (if ty.list then "[]" else if owner = some ty.gqlType then "*" else "") ++
    (if ty.isPrimitive then ps.get ty.gqlType else qualifier ++ exported ty.gqlType)

theorem text_typeExpr_ofDescriptor (ps : Primitives) (qualifier : String) (owner : Option String) (ty : Descriptor) :
    (TypeExpr.ofDescriptor ps qualifier owner ty).text = typeSpelling ps qualifier owner ty := by
  have helement : (TypeExpr.element ps qualifier ty).text =
      if ty.isPrimitive then ps.get ty.gqlType else qualifier ++ exported ty.gqlType := by
    unfold TypeExpr.element
    split <;> rfl
  unfold TypeExpr.ofDescriptor typeSpelling
  rw [← helement]
  by_cases hlist : ty.list = true
  · rw [if_pos hlist, if_pos hlist]
    rfl
  · rw [if_neg hlist, if_neg hlist]
    by_cases howner : owner = some ty.gqlType
    · rw [if_pos howner, if_pos howner]
      rfl
    · rw [if_neg howner, if_neg howner, String.empty_append]

/-- A text declares a structure, and nothing else: each field has a line with its exported name, its type and the tag that
gives its name. -/
def DeclaresStruct (ps : Primitives) (qualifier : String) (owner : Option String) (ident : String)
    (fields : List (String × Descriptor)) (text : String) : Prop :=
  ∃ lines, Rows (fields.map fun f =>
      [exported f.1, typeSpelling ps qualifier owner f.2, "`json:\"" ++ f.1 ++ "\"`"]) lines ∧
    text = "type " ++ ident ++ " struct \x7b\n" ++ lines ++ "\x7d\n"

theorem declaresStruct_structText (ps : Primitives) (qualifier : String) (owner : Option String) (ident : String)
    (fields : List (String × Descriptor)) :
    DeclaresStruct ps qualifier owner ident fields (structText ident (fields.map fun f =>
      { ident := exported f.1, type := .ofDescriptor ps qualifier owner f.2, json := f.1 })) := by
  refine ⟨_, ?_, rfl⟩
  rw [fieldRows, List.map_map]
  simp only [Function.comp_def, text_typeExpr_ofDescriptor]
  exact rows_columns (fun f => List.cons_ne_nil _ _) fields

/-- A text declares a type under the exported form of its name, and nothing else: a structure for what has fields, a string
type with a constant for each value for an enumeration, and the type of unknown scalars for all else. -/
inductive DeclaresType (ps : Primitives) (n : String) (ty : Descriptor) : String → Prop where
  | struct {text : String} (hleaf : ty.leaf = .object ∨ ty.leaf = .input ∨ ty.leaf = .unknown ∧ ty.fields ≠ none)
      (h : DeclaresStruct ps "" (some n) (exported n) ty.fieldList text) : DeclaresType ps n ty text
  | enum {values : List String} {lines : String} (hleaf : ty.leaf = .enum values)
      (h : Rows (values.map fun v => [exported n ++ exported v, exported n, "= " ++ stringLiteral v]) lines) :
      DeclaresType ps n ty ("type " ++ exported n ++ " string\n" ++
        if values = [] then "" else "\nconst (\n" ++ lines ++ ")\n")
  | other (hleaf : ty.isPrimitive = true ∨ ty.leaf = .unknown ∧ ty.fields = none) :
      DeclaresType ps n ty ("type " ++ exported n ++ " " ++ ps.unknown ++ "\n")

theorem declaresType_ofFields {ps : Primitives} {n : String} {ty : Descriptor}
    (hleaf : ty.leaf = .object ∨ ty.leaf = .input ∨ ty.leaf = .unknown ∧ ty.fields ≠ none) :
    DeclaresType ps n ty (TypeDecl.ofFields ps n ty.fieldList).text :=
  .struct hleaf (declaresStruct_structText ps "" (some n) (exported n) ty.fieldList)

/-- The declaration of a type declares it. -/
theorem declaresType_ofDescriptor (ps : Primitives) (n : String) (ty : Descriptor) :
    DeclaresType ps n ty (TypeDecl.ofDescriptor ps n ty).text := by
  unfold TypeDecl.ofDescriptor
  split
  next values hleaf =>
    rw [TypeDecl.text, TypeDecl.constantsText, List.map_map]
    simp only [List.isEmpty_map, List.isEmpty_iff, Function.comp_def]
    exact .enum hleaf (rows_columns (fun v => List.cons_ne_nil _ _) values)
  next hleaf => exact declaresType_ofFields (.inl hleaf)
  next hleaf => exact declaresType_ofFields (.inr (.inl hleaf))
  next hleaf =>
    split
    next fs hfields =>
      have hlist : ty.fieldList = fs := by rw [Descriptor.fieldList, hfields, Option.getD_some]
      rw [← hlist]
      exact declaresType_ofFields (.inr (.inr ⟨hleaf, by rw [hfields]; exact Option.some_ne_none fs⟩))
    next hfields => exact .other (.inr ⟨hleaf, hfields⟩)
  next cls hleaf => exact .other (.inl (by rw [Descriptor.isPrimitive, hleaf]))

/-! ## Functions -/

/-- A statement: it declares a variable by its value or by its type, or it returns values. -/
inductive Statement where
  | define (name value : String)
  | declare (name type : String)
  | results (values : List String)

namespace Statement

/-- The text of a statement. -/
def text : Statement → String
  | .define name value => name ++ " := " ++ value
  | .declare name type => "var " ++ name ++ " " ++ type
  | .results values => "return " ++ String.intercalate ", " values

end Statement

/-- A function with a receiver: names with their types, the types of the results, and the statements of the body. -/
structure FunctionDecl where
  receiver : String × String
  ident : String
  params : List (String × String)
  results : List String
  body : List Statement

namespace FunctionDecl

/-- The text of a function. -/
def text (f : FunctionDecl) : String :=
  "func (" ++ f.receiver.1 ++ " " ++ f.receiver.2 ++ ") " ++ f.ident ++ "(" ++
    String.intercalate ", " (f.params.map fun p => p.1 ++ " " ++ p.2) ++ ") (" ++ String.intercalate ", " f.results ++
    ") \x7b\n" ++ String.join (f.body.map fun s => "\t" ++ s.text ++ "\n") ++ "\x7d\n"

end FunctionDecl

/-- The method of an operation as a function. -/
def MethodDecl.function (m : MethodDecl) : FunctionDecl where
  receiver := ("s", "*Sdk")
  ident := m.ident
  params := [("ctx", "context.Context")] ++ m.args.map (fun a => (param a.name, a.type.text)) ++ [("selections", "...string")]
  results := [m.result.text, "error"]
  body :=
    [.define "request" (m.requestIdent ++ "\x7b" ++ m.assignments ++ "\x7d"),
      .define "meta" m.metaText,
      .declare "response" m.responseIdent,
      .define "err" ("s.Executor." ++ m.executorCall ++ "(ctx, " ++ queryVariable m.name ++
        ".Render(selections...), request, meta, &response)"),
      .results ["response." ++ m.ident, "err"]]

/-- The statements of a method as they are written. -/
theorem MethodDecl.text_body (m : MethodDecl) :
    String.join (m.function.body.map fun s => "\t" ++ s.text ++ "\n") =
      "\trequest := " ++ m.requestIdent ++ "\x7b" ++ m.assignments ++ "\x7d\n" ++
        "\tmeta := " ++ m.metaText ++ "\n" ++
        "\tvar response " ++ m.responseIdent ++ "\n" ++
        "\terr := s.Executor." ++ m.executorCall ++ "(ctx, " ++ queryVariable m.name ++
        ".Render(selections...), request, meta, &response)\n" ++
        "\treturn response." ++ m.ident ++ ", err\n" := by
  rw [← String.toList_inj]
  simp [MethodDecl.function, Statement.text, String.intercalate_cons_cons]

/-- A method is written as its function. -/
theorem MethodDecl.text_function (m : MethodDecl) : m.function.text = m.functionText := by
  have hreceiver : m.function.receiver = ("s", "*Sdk") := rfl
  have hident : m.function.ident = m.ident := rfl
  have hparams : m.function.params.map (fun p => p.1 ++ " " ++ p.2) = m.params := by
    simp [MethodDecl.function, MethodDecl.params, Function.comp_def]
  have hresults : String.intercalate ", " m.function.results = m.result.text ++ ", " ++ "error" := by
    simp [MethodDecl.function, String.intercalate_cons_cons]
  have hbody := m.text_body
  -- the parts say all that is written of the function, whose own definition must not be opened any more
  generalize m.function = f at *
  unfold FunctionDecl.text MethodDecl.functionText
  rw [hreceiver, hident, hparams, hresults, hbody, ← String.toList_inj]
  simp only [String.toList_append, List.append_assoc]
  simp

/-! ## Operations -/

/-- A text declares what an operation needs, and nothing else: the structures of its request, with a field for each argument,
and of its response, with the result, and a method of the client. This takes, after a context and before selections, a
parameter for each argument, and it returns the result and an error. -/
structure DeclaresMethod (ps : Primitives) (op : Operation) (f : FunctionDecl) (text : String) : Prop where
  receiver : f.receiver = ("s", "*Sdk")
  ident : f.ident = exported op.method.name
  params : f.params = [("ctx", "context.Context")] ++
    List.map (fun (a : String × Descriptor) => (param a.1, typeSpelling ps "types." none a.2)) op.method.args ++
    [("selections", "...string")]
  results : f.results = [typeSpelling ps "types." none op.method.returnType, "error"]
  text : ∃ request response,
    DeclaresStruct ps "types." none (exported op.method.name ++ "Request") op.method.args request ∧
    DeclaresStruct ps "types." none (exported op.method.name ++ "Response") [(op.method.name, op.method.returnType)]
      response ∧
    text = request ++ "\n" ++ response ++ "\n" ++ f.text

/-- The declarations of an operation declare what it needs. -/
theorem declaresMethod_ofOperation (ps : Primitives) (op : Operation) :
    DeclaresMethod ps op (MethodDecl.ofOperation ps op).function (MethodDecl.ofOperation ps op).text where
  receiver := rfl
  ident := rfl
  params := by
    simp only [MethodDecl.function, MethodDecl.ofOperation, List.map_map, Function.comp_def, text_typeExpr_ofDescriptor,
      typesQualifier]
  results := by
    simp only [MethodDecl.function, MethodDecl.ofOperation, text_typeExpr_ofDescriptor, typesQualifier]
  text := by
    have hrequest := declaresStruct_structText ps "types." none (exported op.method.name ++ "Request") op.method.args
    have hresponse := declaresStruct_structText ps "types." none (exported op.method.name ++ "Response")
      [(op.method.name, op.method.returnType)]
    refine ⟨_, _, hrequest, hresponse, ?_⟩
    rw [MethodDecl.text, MethodDecl.text_function, MethodDecl.requestFields, MethodDecl.ofOperation, List.map_map]
    rfl

/-! ## Files -/

/-- A file of types declares the types that a definition has under some names, each once, in the order of the names, and
nothing else. -/
def DeclaresExactly (d : Definition) (ps : Primitives) (files : List (String × String)) (path : String)
    (names : List String) : Prop :=
  ∃ text : String → String, (∀ n ∈ names, ∃ ty, d.model.types.get? n = some ty ∧ DeclaresType ps n ty (text n)) ∧
    files.lookup path = some ("// Code generated by gql-sdkgen. DO NOT EDIT.\n\n" ++ "package types\n" ++
      String.join (names.map fun n => "\n" ++ text n))

/-- What is written for the type of a name, if the model has one. -/
def typeText (m : Model) (ps : Primitives) (n : String) : String :=
  ((m.types.get? n).map fun ty => (TypeDecl.ofDescriptor ps n ty).text).getD ""

theorem typeText_of_get? {m : Model} {n : String} {ty : Descriptor} (h : m.types.get? n = some ty) (ps : Primitives) :
    typeText m ps n = (TypeDecl.ofDescriptor ps n ty).text := by
  rw [typeText, h, Option.map_some, Option.getD_some]

/-- The declarations of some of the emitted types are written in the order of the names. -/
theorem map_text_typeDecls (d : Definition) (ps : Primitives) (p : String → Bool) :
    (Package.typeDecls d.model ps (d.emitted.keys.filter p)).map TypeDecl.text =
      (d.emitted.keys.filter p).map (typeText d.model ps) := by
  have hkeys : (NameSet.ofNames (d.emitted.keys.filter p)).keys = d.emitted.keys.filter p := by
    rw [← SortedMap.keys_filter, NameSet.ofNames_keys]
  rw [Package.typeDecls, Model.select, hkeys, List.map_map, List.map_filterMap, ← List.filterMap_eq_map]
  refine List.filterMap_congr fun n hn => ?_
  obtain ⟨ty, hty⟩ := d.type_of_mem_emitted (List.mem_filter.1 hn).1
  simp only [hty, typeText_of_get? hty, Option.map_some, Function.comp_apply]

/-- A file of some of the emitted types declares these. -/
theorem declaresExactly_typesFile {d : Definition} {ps : Primitives} {p : String → Bool} {files : List (String × String)}
    {path : String} (h : files.lookup path =
      some (Package.typesFile (Package.typeDecls d.model ps (d.emitted.keys.filter p)))) :
    DeclaresExactly d ps files path (d.emitted.keys.filter p) := by
  refine ⟨typeText d.model ps, ?_, ?_⟩
  · intro n hn
    obtain ⟨ty, hty⟩ := d.type_of_mem_emitted (List.mem_filter.1 hn).1
    exact ⟨ty, hty, typeText_of_get? hty ps ▸ declaresType_ofDescriptor ps n ty⟩
  · have hlines := congrArg (List.map fun text => "\n" ++ text) (map_text_typeDecls d ps p)
    rw [List.map_map, List.map_map] at hlines
    rw [h]
    exact congrArg (fun lines => some (Package.header ++ "package types\n" ++ String.join lines)) hlines

/-- The file of the client declares the operations of a definition, one after the other, after what every client declares. The
texts of the operations are in a given relation to these. -/
def DeclaresOperations (d : Definition) (ps : Primitives) (module : String) (declares : Operation → String → Prop) : Prop :=
  ∃ text : Operation → String, (∀ op ∈ d.catalog.operations, declares op (text op)) ∧
    ((Package.ofDefinition d ps).files module).lookup "cmd/main/sdk.go" = some (Package.header ++ "package sdk\n\n" ++
      (Package.ofDefinition d ps).imports module ++ Package.clientPreamble ++
      String.join (d.catalog.operations.map fun op => "\n" ++ text op))

theorem declaresOperations_files {d : Definition} {ps : Primitives} {declares : Operation → String → Prop}
    (h : ∀ op ∈ d.catalog.operations, declares op (MethodDecl.ofOperation ps op).text) (module : String) :
    DeclaresOperations d ps module declares := by
  refine ⟨fun op => (MethodDecl.ofOperation ps op).text, h, ?_⟩
  have hmethods : (Package.ofDefinition d ps).methodsText =
      String.join (d.catalog.operations.map fun op => "\n" ++ (MethodDecl.ofOperation ps op).text) := by
    rw [Package.methodsText, Package.ofDefinition, List.map_map]
    rfl
  rw [← hmethods]
  rfl

end SdkLoom.Go
