import SdkLoom.Descriptor.Codec
import SdkLoom.Model.Basic

/-!
# Models as JSON

Models and inputs are written as maps from their names to their descriptors; of such a map only the names are read back.
-/

namespace SdkLoom

open Json (Record)

variable {ε : Type}

/-- The names of the members of an object, whatever their values. -/
def NameSet.ofTree? (t : Json.Tree ε) : Option NameSet := t.members?.map fun ms => NameSet.ofNames (ms.map Prod.fst)

/-- An ignore list in JSON form: its names in order. -/
def IgnoreList.toJson (ignored : IgnoreList) : Json := Json.ofStrings (SortedMap.keys ignored)

/-- An ignore list of a list of names. -/
def IgnoreList.ofTree? (t : Json.Tree ε) : Option IgnoreList := (t.list? Json.Tree.string?).map NameSet.ofNames

namespace Model

/-- The members of the JSON form of a model. -/
def members (m : Model) : List (String × Json) :=
  [("types", .obj (Descriptor.membersJson m.types.toList)),
    ("models", .obj (Descriptor.membersJson (m.select m.models))),
    ("inputs", .obj (Descriptor.membersJson (m.select m.inputs))),
    ("ignoredModels", IgnoreList.toJson m.ignored)]

/-- The JSON form of a model. -/
def toJson (m : Model) : Json := .obj m.members

/-- The field names of a model. -/
def fieldNames : List String := ["types", "models", "inputs", "ignoredModels"]

/-- A model from its fields. -/
def ofRecord? (r : Record (Json.Tree ε)) : Option Model := do
  let types ← r.required "types" (Json.Tree.entries? Descriptor.ofTree?)
  let models ← r.required "models" NameSet.ofTree?
  let inputs ← r.required "inputs" NameSet.ofTree?
  let ignored ← r.required "ignoredModels" IgnoreList.ofTree?
  return { types := SortedMap.ofList types, models, inputs, ignored }

/-- A model. -/
def ofTree? (t : Json.Tree ε) : Option Model := (t.record? fieldNames).bind ofRecord?

end Model

end SdkLoom
