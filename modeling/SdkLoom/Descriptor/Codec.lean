import SdkLoom.Descriptor.Basic
import SdkLoom.Json.Decode

/-!
# Descriptors as JSON

A descriptor is written as an object of its fields, with those of its leaf among them and without what is absent. It is
read from an object only, and the object may hold other members as long as they have no faults.
-/

namespace SdkLoom

open Json (Record)

variable {ε : Type}

/-! ## Encoding -/

/-- The members that a leaf adds. -/
def Leaf.members : Leaf → List (String × Json)
  | .primitive cls => [("leaf", .str "primitive"), ("class", .str cls.code)]
  | .enum values => [("leaf", .str "enum"), ("values", Json.ofStrings values)]
  | .object => [("leaf", .str "object")]
  | .input => [("leaf", .str "input")]
  | .unknown => [("leaf", .str "unknown")]

mutual

/-- The JSON form of a descriptor. -/
def Descriptor.toJson : Descriptor → Json
  | ⟨name, gqlType, leaf, list, required, subRequired, fields⟩ =>
    let named := match name with
      | some n => [("name", Json.Tree.str n)]
      | none => []
    let flags := [("list", Json.Tree.bool list), ("required", .bool required), ("subRequired", .bool subRequired)]
    let inner := match fields with
      | some fs => [("fields", Json.Tree.obj (Descriptor.membersJson fs))]
      | none => []
    .obj (named ++ ("gqlType", .str gqlType) :: leaf.members ++ flags ++ inner)

/-- The JSON forms of descriptors by name. -/
def Descriptor.membersJson : List (String × Descriptor) → List (String × Json)
  | [] => []
  | (k, d) :: rest => (k, d.toJson) :: Descriptor.membersJson rest

end

/-- The JSON form of fields or arguments. -/
def Fields.toJson (fs : Fields) : Json := .obj (Descriptor.membersJson fs)

/-! ## Decoding -/

/-- The class with a spelling. -/
def ScalarClass.ofCode? : String → Option ScalarClass
  | "numeric" => some .numeric
  | "text" => some .text
  | "boolean" => some .boolean
  | "unknown" => some .unknown
  | _ => none

/-- A leaf from all members of a descriptor. -/
def Leaf.ofMembers? (members : List (String × Json)) : Option Leaf := do
  let tag ← (← Record.ofMembers? ["leaf"] members).required "leaf" fun t =>
    match t with
    | .str s => some s
    -- a leaf may also be given by its place among the leaves
    | .num (.int i) => ["primitive", "enum", "object", "input", "unknown"][i.toNat]?.filter fun _ => 0 ≤ i
    | _ => none
  match tag with
  | "primitive" =>
    let r ← Record.ofMembers? ["class"] members
    let cls ← r.required "class" fun t => t.heldChoice?.bind ScalarClass.ofCode?
    return .primitive cls
  | "enum" =>
    let r ← Record.ofMembers? ["values"] members
    let values ← r.required "values" (Json.Tree.list? Json.Tree.string?)
    return .enum values
  | "object" => some .object
  | "input" => some .input
  | "unknown" => some .unknown
  | _ => none

/-- A member of a descriptor with its reading as fields or null. -/
structure Descriptor.Member where
  tree : Json
  fields : Option (Option Fields)

/-- A descriptor from its members. -/
def Descriptor.ofMembers? (members : List (String × Descriptor.Member)) : Option Descriptor := do
  let r ← Record.ofMembers? ["name", "gqlType", "list", "required", "subRequired", "fields"] members
  let name ← r.defaulted "name" (fun m => m.tree.nullable? Json.Tree.string?) none
  let gqlType ← r.required "gqlType" fun m => m.tree.string?
  let list ← r.defaulted "list" (fun m => m.tree.bool?) false
  let required ← r.defaulted "required" (fun m => m.tree.bool?) false
  let subRequired ← r.defaulted "subRequired" (fun m => m.tree.bool?) false
  let fields ← r.defaulted "fields" (fun m => m.fields) none
  let leaf ← Leaf.ofMembers? (members.map fun (k, m) => (k, m.tree))
  return { name, gqlType, leaf, list, required, subRequired, fields }

/-- Readings by name as an insertion-ordered map, if all of them succeed. -/
def Fields.ofReadings? (entries : List (String × Option Descriptor)) : Option Fields :=
  (entries.mapM fun (e : String × Option Descriptor) => e.2.map fun d => (e.1, d)).map OrderedMap.ofEntries

mutual

/-- A descriptor of a tree without faults. -/
def Descriptor.ofJson? : Json → Option Descriptor
  | .obj members => Descriptor.ofMembers? (Descriptor.readMembers members)
  | _ => none

/-- Members with their readings as fields. -/
def Descriptor.readMembers : List (String × Json) → List (String × Descriptor.Member)
  | [] => []
  | (k, t) :: rest =>
    let fields := match t with
      | .null => some none
      | .obj ms => (Fields.ofReadings? (Descriptor.readFields ms)).map some
      | _ => none
    (k, { tree := t, fields }) :: Descriptor.readMembers rest

/-- Members with their readings as descriptors. -/
def Descriptor.readFields : List (String × Json) → List (String × Option Descriptor)
  | [] => []
  | (k, t) :: rest => (k, Descriptor.ofJson? t) :: Descriptor.readFields rest

end

/-- A descriptor; no fault may be anywhere in it. -/
def Descriptor.ofTree? (t : Json.Tree ε) : Option Descriptor := t.faultless?.bind Descriptor.ofJson?

/-- Fields or arguments by name, in order. -/
def Fields.ofTree? (t : Json.Tree ε) : Option Fields := (t.entries? Descriptor.ofTree?).map OrderedMap.ofEntries

end SdkLoom
