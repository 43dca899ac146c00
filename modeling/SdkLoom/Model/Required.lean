import SdkLoom.Catalog.Basic

/-!
# Required types

A type is required if an operation takes it as an argument or returns it and it is no scalar. The fields of required types
are not followed.
-/

namespace SdkLoom

/-- A use of a type by an operation. -/
structure Reference where
  operation : String
  type : Descriptor

/-- The types that a method takes and returns. -/
def Method.references (m : Method) : List Reference :=
  (OrderedMap.values m.args ++ [m.returnType]).map fun type => { operation := m.name, type }

/-- The types that the operations of a catalog take and return. -/
def Catalog.references (c : Catalog) : List Reference := (OrderedMap.values c.methods).flatMap Method.references

/-- A model with the names of its types that are known to be required. -/
structure Tracked where
  model : Model
  required : NameSet

namespace Tracked

/-- Marks the type that a reference names, if the model has it and it is no scalar. -/
def mark (t : Tracked) (r : Reference) : Tracked :=
  if r.type.isPrimitive || t.required.contains r.type.gqlType || !t.model.types.contains r.type.gqlType then t
  else
    { model := { t.model with types := t.model.types.modify r.type.gqlType fun d => { d with required := true } }
      required := t.required.insert r.type.gqlType () }

end Tracked

namespace Model

/-- Marks all types that the operations of a catalog take or return. -/
def track (m : Model) (c : Catalog) : Tracked := c.references.foldl Tracked.mark { model := m, required := ∅ }

/-- The remarks on the references of a catalog: each names a type the model has, or is remarked on. -/
def trackNotes (m : Model) (c : Catalog) : List Diagnostic :=
  (c.references.filter fun r => !r.type.isPrimitive && !m.types.contains r.type.gqlType).map fun r =>
    .undefinedReference r.operation r.type.gqlType

end Model

end SdkLoom
