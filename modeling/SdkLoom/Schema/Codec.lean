import SdkLoom.Error
import SdkLoom.Json.Decode
import SdkLoom.Json.Reader
import SdkLoom.Schema.Basic

/-!
# Introspection documents

The JSON form of a schema, and the answers in which it arrives: the member `__schema` alone, or a GraphQL response with
`data` and `errors`. Errors in a response win over its data.
-/

namespace SdkLoom

open Json (Record)

variable {ε : Type}

/-! ## Encoding -/

/-- The JSON form of a type reference. -/
def TypeRef.toJson : TypeRef → Json
  | ⟨kind, name, ofType⟩ =>
    .obj [("kind", .str kind.code), ("name", Json.ofString? name),
      ("ofType", match ofType with
        | none => .null
        | some inner => inner.toJson)]

/-- The JSON form of an argument or input field. -/
def InputValue.toJson (v : InputValue) : Json :=
  .obj [("name", .str v.name), ("description", Json.ofString? v.description), ("type", v.type.toJson),
    ("defaultValue", Json.ofString? v.defaultValue)]

/-- The JSON form of a field. -/
def FieldDef.toJson (f : FieldDef) : Json :=
  .obj [("name", .str f.name), ("description", Json.ofString? f.description),
    ("args", .arr (f.args.map InputValue.toJson)), ("type", f.type.toJson)]

/-- The JSON form of an enumeration value. -/
def EnumValue.toJson (v : EnumValue) : Json :=
  .obj [("name", .str v.name), ("description", Json.ofString? v.description)]

/-- A list in JSON form, or null. -/
def encodeList? {α : Type} (f : α → Json) : Option (List α) → Json
  | none => .null
  | some xs => .arr (xs.map f)

/-- The JSON form of a type definition. -/
def TypeDef.toJson (t : TypeDef) : Json :=
  .obj [("kind", .str t.kind.code), ("name", .str t.name), ("description", Json.ofString? t.description),
    ("fields", encodeList? FieldDef.toJson t.fields), ("inputFields", encodeList? InputValue.toJson t.inputFields),
    ("enumValues", encodeList? EnumValue.toJson t.enumValues)]

/-- The JSON form of a root operation type. -/
def encodeRoot : Option String → Json
  | none => .null
  | some name => .obj [("name", .str name)]

/-- The JSON form of a schema. -/
def Schema.toJson (s : Schema) : Json :=
  .obj [("queryType", encodeRoot s.queryType), ("mutationType", encodeRoot s.mutationType),
    ("subscriptionType", encodeRoot s.subscriptionType), ("types", .arr (s.types.map TypeDef.toJson))]

/-! ## Decoding -/

/-- A kind: a choice by its spelling. -/
def TypeKind.ofTree? (t : Json.Tree ε) : Option TypeKind := t.choice?.map TypeKind.ofCode

/-- The field names of a reference. -/
def TypeRef.fieldNames : List String := ["kind", "name", "ofType"]

/-- A reference from its fields, of which each comes with its own reading as a reference or null. -/
def TypeRef.ofRecord? (r : Record (Json.Tree ε × Option (Option TypeRef))) : Option TypeRef := do
  let kind ← r.required "kind" fun v => TypeKind.ofTree? v.1
  let name ← r.defaulted "name" (fun v => v.1.nullable? Json.Tree.string?) none
  let ofType ← r.defaulted "ofType" (fun v => v.2) none
  return ⟨kind, name, ofType⟩

/-- A reading that is not asked for where a tree is null. -/
def orNull {α : Type} (t : Json.Tree ε) (reading : Option α) : Option (Option α) :=
  match t with
  | .null => some none
  | _ => reading.map some

mutual

/-- A type reference. -/
def TypeRef.ofTree? : Json.Tree ε → Option TypeRef
  | .obj members => (Record.ofMembers? TypeRef.fieldNames (TypeRef.readMembers members)).bind TypeRef.ofRecord?
  | .arr items => (Record.ofItems? TypeRef.fieldNames (TypeRef.readItems items)).bind TypeRef.ofRecord?
  | _ => none

/-- Members with their readings as a reference or null. -/
def TypeRef.readMembers : List (String × Json.Tree ε) → List (String × Json.Tree ε × Option (Option TypeRef))
  | [] => []
  | (k, t) :: rest => (k, t, orNull t (TypeRef.ofTree? t)) :: TypeRef.readMembers rest

/-- Items with their readings as a reference or null. -/
def TypeRef.readItems : List (Json.Tree ε) → List (Json.Tree ε × Option (Option TypeRef))
  | [] => []
  | t :: rest => (t, orNull t (TypeRef.ofTree? t)) :: TypeRef.readItems rest

end

/-- An argument or input field. -/
def InputValue.ofTree? (t : Json.Tree ε) : Option InputValue := do
  let r ← t.record? ["name", "description", "type", "defaultValue"]
  let name ← r.required "name" Json.Tree.string?
  let description ← r.defaulted "description" (Json.Tree.nullable? Json.Tree.string?) none
  let type ← r.required "type" TypeRef.ofTree?
  let defaultValue ← r.defaulted "defaultValue" (Json.Tree.nullable? Json.Tree.string?) none
  return { name, description, type, defaultValue }

/-- A field. -/
def FieldDef.ofTree? (t : Json.Tree ε) : Option FieldDef := do
  let r ← t.record? ["name", "description", "args", "type"]
  let name ← r.required "name" Json.Tree.string?
  let description ← r.defaulted "description" (Json.Tree.nullable? Json.Tree.string?) none
  let args ← r.defaulted "args" (Json.Tree.list? InputValue.ofTree?) []
  let type ← r.required "type" TypeRef.ofTree?
  return { name, description, args, type }

/-- An enumeration value. -/
def EnumValue.ofTree? (t : Json.Tree ε) : Option EnumValue := do
  let r ← t.record? ["name", "description"]
  let name ← r.required "name" Json.Tree.string?
  let description ← r.defaulted "description" (Json.Tree.nullable? Json.Tree.string?) none
  return { name, description }

/-- A type definition. -/
def TypeDef.ofTree? (t : Json.Tree ε) : Option TypeDef := do
  let r ← t.record? ["kind", "name", "description", "fields", "inputFields", "enumValues"]
  let kind ← r.required "kind" TypeKind.ofTree?
  let name ← r.required "name" Json.Tree.string?
  let description ← r.defaulted "description" (Json.Tree.nullable? Json.Tree.string?) none
  let fields ← r.defaulted "fields" (Json.Tree.nullable? (Json.Tree.list? FieldDef.ofTree?)) none
  let inputFields ← r.defaulted "inputFields" (Json.Tree.nullable? (Json.Tree.list? InputValue.ofTree?)) none
  let enumValues ← r.defaulted "enumValues" (Json.Tree.nullable? (Json.Tree.list? EnumValue.ofTree?)) none
  return { kind, name, description, fields, inputFields, enumValues }

/-- The name of a root operation type. -/
def rootName? (t : Json.Tree ε) : Option String := do
  let r ← t.record? ["name"]
  r.required "name" Json.Tree.string?

/-- A schema. -/
def Schema.ofTree? (t : Json.Tree ε) : Option Schema := do
  let r ← t.record? ["queryType", "mutationType", "subscriptionType", "types"]
  let queryType ← r.defaulted "queryType" (Json.Tree.nullable? rootName?) none
  let mutationType ← r.defaulted "mutationType" (Json.Tree.nullable? rootName?) none
  let subscriptionType ← r.defaulted "subscriptionType" (Json.Tree.nullable? rootName?) none
  let types ← r.defaulted "types" (Json.Tree.list? TypeDef.ofTree?) []
  return { queryType, mutationType, subscriptionType, types }

/-! ## Responses -/

/-- A location. -/
def Location.ofTree? (t : Json.Tree ε) : Option Location := do
  let r ← t.record? ["line", "column"]
  let line ← r.required "line" Json.Tree.int64?
  let column ← r.required "column" Json.Tree.int64?
  return { line, column }

/-- An entry of the error list. -/
def ResponseError.ofTree? (t : Json.Tree ε) : Option ResponseError := do
  let r ← t.record? ["message", "locations", "path"]
  let message ← r.required "message" Json.Tree.string?
  let locations ← r.defaulted "locations" (Json.Tree.list? Location.ofTree?) []
  let path ← r.defaulted "path" (Json.Tree.list? Json.Tree.value?) []
  return { message, locations, path }

/-- A GraphQL response: its data, if any, and its errors. -/
structure Response (α : Type) where
  data : Option α
  errors : List ResponseError

/-- A response whose data has a reader. -/
def Response.ofTree? {α : Type} (f : Json.Tree ε → Option α) (t : Json.Tree ε) : Option (Response α) := do
  let r ← t.record? ["data", "errors"]
  let data ← r.optional "data" (Json.Tree.nullable? f)
  let errors ← r.defaulted "errors" (Json.Tree.list? ResponseError.ofTree?) []
  return { data, errors }

/-- The schema in a `__schema` container. -/
def Schema.ofContainer? (t : Json.Tree ε) : Option Schema := do
  let r ← t.record? ["__schema"]
  r.required "__schema" Schema.ofTree?

/-- The schema of a response: the first error wins, then a response without data is an error. -/
def Schema.ofResponse (r : Response Schema) (body : String) : Except Error Schema :=
  match r.errors with
  | e :: _ => .error (.response { status := none, errors := r.errors, body, message := e.message })
  | [] =>
    match r.data with
    | some s => .ok s
    | none => .error .noData

/-- The schema of an introspection tree: a bare container, or else a response. -/
def Schema.ofEnvelope (t : Json) (body : String) : Except Error Schema :=
  match Schema.ofContainer? t with
  | some s => .ok s
  | none =>
    match Response.ofTree? Schema.ofContainer? t with
    | some r => Schema.ofResponse r body
    | none => .error .json

/-- The schema of an introspection document. -/
def Schema.ofText (text : String) : Except Error Schema :=
  match (Json.read text).bind Json.Tree.faultless? with
  | some t => Schema.ofEnvelope t text
  | none => .error .json

end SdkLoom
