import SdkLoom.Descriptor.Basic
import SdkLoom.Go.Identifier
import SdkLoom.Target.Primitives

/-!
# Go types of descriptors

The type by which Go code refers to a descriptor's type.
-/

namespace SdkLoom.Go

/-- A type expression. -/
inductive TypeExpr where
  | scalar (spelling : String)
  | named (qualifier ident : String)
  | slice (element : TypeExpr)
  | pointer (target : TypeExpr)
  deriving DecidableEq, Repr, Inhabited

namespace TypeExpr

/-- The text of a type expression. -/
def text : TypeExpr → String
  | .scalar s => s
  | .named qualifier ident => qualifier ++ ident
  | .slice t => "[]" ++ t.text
  | .pointer t => "*" ++ t.text

/-- The type of a descriptor without its wrappers. -/
def element (ps : Primitives) (qualifier : String) (d : Descriptor) : TypeExpr :=
  if d.isPrimitive then .scalar (ps.get d.gqlType) else .named qualifier (exported d.gqlType)

/-- The type of a descriptor; what refers to its owner and is no list becomes a pointer. -/
def ofDescriptor (ps : Primitives) (qualifier : String) (owner : Option String) (d : Descriptor) : TypeExpr :=
  if d.list then .slice (element ps qualifier d)
  else if owner = some d.gqlType then .pointer (element ps qualifier d)
  else element ps qualifier d

end TypeExpr

/-- What stands before the names of the package of types. -/
def typesQualifier : String := "types."

end SdkLoom.Go
