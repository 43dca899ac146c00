import SdkLoom.Model.Required

/-!
# Service definitions

All that is derived from a schema: its model, its catalog and the names of its required types.
-/

namespace SdkLoom

/-- A model with its operations and the names of the types that they require. -/
structure Definition where
  model : Model
  catalog : Catalog
  required : NameSet

namespace Definition

/-- The required models in name order. -/
def requiredModels (d : Definition) : List String := d.required.keys.filter d.model.models.contains

/-- The required inputs in name order. -/
def requiredInputs (d : Definition) : List String := d.required.keys.filter d.model.inputs.contains

/-- The definition of a schema, if it has its root types. -/
def ofSchema (s : Schema) (ignored : IgnoreList) : Except Error Definition := do
  let model := Model.ofIndex s.index ignored
  let catalog := Catalog.ofFields s.index model (← s.rootFields)
  let tracked := model.track catalog
  return { model := tracked.model, catalog, required := tracked.required }

/-- The remarks on a schema, in the order of the work: its types, its root fields, its references. Where only the mutation
root is missing, the fields of the query root are remarked on before that is found out. -/
def notes (s : Schema) (ignored : IgnoreList) : List Diagnostic :=
  Model.notes s.index ++
    match s.rootFields with
    | .ok fs =>
      let model := Model.ofIndex s.index ignored
      Catalog.notes s.index fs ++ model.trackNotes (Catalog.ofFields s.index model fs)
    | .error _ =>
      match s.index.rootFields .query (s.queryType.getD Schema.defaultQueryRoot) with
      | .ok queries => Catalog.notes s.index queries
      | .error _ => []

end Definition

end SdkLoom
