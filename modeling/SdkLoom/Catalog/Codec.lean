import SdkLoom.Catalog.Basic
import SdkLoom.Descriptor.Codec

/-!
# Catalogs as JSON

Queries and methods are maps in insertion order, and are written and read so.
-/

namespace SdkLoom

open Json (Record)

variable {ε : Type}

/-! ## Encoding -/

/-- The JSON form of a query entry. -/
def QueryEntry.toJson (q : QueryEntry) : Json :=
  .obj [("name", .str q.name), ("kind", .str q.kind.code), ("args", Fields.toJson q.args),
    ("fields", Fields.toJson q.fields)]

/-- The JSON form of a method. -/
def Method.toJson (m : Method) : Json :=
  .obj [("name", .str m.name), ("args", Fields.toJson m.args), ("returnType", m.returnType.toJson),
    ("async", .bool m.isAsync), ("kind", .str m.kind.code)]

/-- The members of the JSON form of a catalog. -/
def Catalog.members (c : Catalog) : List (String × Json) :=
  [("queries", .obj (List.map (fun e => (e.1, e.2.toJson)) c.queries)),
    ("methods", .obj (List.map (fun e => (e.1, e.2.toJson)) c.methods))]

/-- The JSON form of a catalog. -/
def Catalog.toJson (c : Catalog) : Json := .obj c.members

/-! ## Decoding -/

/-- The kind with a keyword. -/
def OperationKind.ofCode? : String → Option OperationKind
  | "query" => some .query
  | "mutation" => some .mutation
  | _ => none

/-- A kind: a choice by its keyword. -/
def OperationKind.ofTree? (held : Bool) (t : Json.Tree ε) : Option OperationKind :=
  (if held then t.heldChoice? else t.choice?).bind OperationKind.ofCode?

/-- A query entry. -/
def QueryEntry.ofTree? (held : Bool) (t : Json.Tree ε) : Option QueryEntry := do
  let r ← t.record? ["name", "kind", "args", "fields"]
  let name ← r.required "name" Json.Tree.string?
  let kind ← r.required "kind" (OperationKind.ofTree? held)
  let args ← r.required "args" Fields.ofTree?
  let fields ← r.required "fields" Fields.ofTree?
  return { name, kind, args, fields }

/-- A method. -/
def Method.ofTree? (held : Bool) (t : Json.Tree ε) : Option Method := do
  let r ← t.record? ["name", "args", "returnType", "async", "kind"]
  let name ← r.required "name" Json.Tree.string?
  let args ← r.required "args" Fields.ofTree?
  let returnType ← r.required "returnType" Descriptor.ofTree?
  let isAsync ← r.required "async" Json.Tree.bool?
  let kind ← r.required "kind" (OperationKind.ofTree? held)
  return { name, args, returnType, isAsync, kind }

namespace Catalog

/-- The field names of a catalog. -/
def fieldNames : List String := ["queries", "methods"]

/-- A catalog from its fields, which may be members that are held back until others are read. -/
def ofRecord? (held : Bool) (r : Record (Json.Tree ε)) : Option Catalog := do
  let queries ← r.required "queries" (Json.Tree.entries? (QueryEntry.ofTree? held))
  let methods ← r.required "methods" (Json.Tree.entries? (Method.ofTree? held))
  return { queries := OrderedMap.ofEntries queries, methods := OrderedMap.ofEntries methods }

/-- A catalog. -/
def ofTree? (t : Json.Tree ε) : Option Catalog := (t.record? fieldNames).bind (ofRecord? false)

end Catalog

end SdkLoom
