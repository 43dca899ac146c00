import SdkLoom.Catalog.Codec
import SdkLoom.Definition.Basic
import SdkLoom.Json.Printer
import SdkLoom.Json.Reader
import SdkLoom.Model.Codec

/-!
# Dumps of definitions

A dump is one object with the members of the model, those of the catalog and the required names. It is read from an object
only; all of it has to be free of faults, except what stands under a required name.
-/

namespace SdkLoom

open Json (Record)

variable {ε : Type}

/-- Required names in JSON form: each maps to an object with the name. -/
def NameSet.requiredJson (names : NameSet) : Json :=
  .obj (names.keys.map fun n => (n, .obj [("name", .str n)]))

namespace Definition

/-- The member of a dump that has the required names. -/
def requiredMember : String := "requiredModels"

/-- The JSON form of a definition. -/
def toJson (d : Definition) : Json :=
  .obj (d.model.members ++ d.catalog.members ++ [(requiredMember, d.required.requiredJson)])

/-- A definition. -/
def ofTree? (t : Json.Tree ε) : Option Definition := do
  let members ← t.members?
  let required ← (← Record.ofMembers? [requiredMember] members).required requiredMember NameSet.ofTree?
  let others ← Json.Tree.faultlessMembers? (members.filter fun m => m.1 != requiredMember)
  let model ← (Record.ofMembers? Model.fieldNames others).bind Model.ofRecord?
  let catalog ← (Record.ofMembers? Catalog.fieldNames others).bind (Catalog.ofRecord? true)
  return { model, catalog, required }

/-- The dump of a definition. -/
def dump (d : Definition) : String := d.toJson.pretty

/-- The definition of a dump. -/
def ofDump (text : String) : Except Error Definition :=
  match (Json.read text).bind ofTree? with
  | some d => .ok d
  | none => .error .json

end Definition

end SdkLoom
