import SdkLoom.Schema.Basic

/-!
# Diagnostics

What is told to the user besides a result.
-/

namespace SdkLoom

/-- A remark about a schema. -/
inductive Diagnostic where
  | extensionSkipped
  | enumWithoutDefinition (typeName : String)
  | unknownScalar (typeName : String)
  | unknownKind (typeName : String) (kind : TypeKind)
  | undefinedReference (operation typeName : String)
  deriving DecidableEq, Repr

namespace Diagnostic

/-- The wording of a diagnostic. -/
def message : Diagnostic → String
  | .extensionSkipped => "type extensions are not merged, skipping"
  | .enumWithoutDefinition _ => "enum reference without a definition"
  | .unknownScalar _ => "unknown graphql scalar type"
  | .unknownKind .. => "unknown graphql type kind, keeping its name and fields"
  | .undefinedReference .. => "operation references a type the schema does not define"

/-- The details of a diagnostic by name. -/
def details : Diagnostic → List (String × String)
  | .extensionSkipped => []
  | .enumWithoutDefinition t => [("type_name", t)]
  | .unknownScalar t => [("type_name", t)]
  | .unknownKind t k => [("type_name", t), ("kind", k.label)]
  | .undefinedReference op t => [("operation", op), ("type_name", t)]

end Diagnostic

end SdkLoom
