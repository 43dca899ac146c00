import SdkLoom.Map.Ordered

/-!
# Type descriptors

A descriptor says everything about a use of a type in one record: the name inside of all wrappers, what kind of leaf that
is, and the wrappers as three flags.
-/

namespace SdkLoom

/-- The class of a scalar. -/
inductive ScalarClass where
  | numeric
  | text
  | boolean
  | unknown
  deriving DecidableEq, Repr, Inhabited

namespace ScalarClass

/-- The spelling of a class. -/
def code : ScalarClass → String
  | .numeric => "numeric"
  | .text => "text"
  | .boolean => "boolean"
  | .unknown => "unknown"

/-- The class of a scalar name; only six names have one. -/
def ofScalar? : String → Option ScalarClass
  | "Int" => some .numeric
  | "Float" => some .numeric
  | "BigInt" => some .numeric
  | "String" => some .text
  | "ID" => some .text
  | "Boolean" => some .boolean
  | _ => none

end ScalarClass

/-- What the innermost type of a reference is. -/
inductive Leaf where
  | primitive (cls : ScalarClass)
  | enum (values : List String)
  | object
  | input
  | unknown
  deriving DecidableEq, Repr, Inhabited

/-- A use of a type. -/
structure Descriptor where
  name : Option String
  gqlType : String
  leaf : Leaf
  list : Bool
  required : Bool
  subRequired : Bool
  fields : Option (List (String × Descriptor))
  deriving Inhabited, Repr

/-- Descriptors by field or argument name, in order. -/
abbrev Fields := OrderedMap Descriptor

namespace Descriptor

/-- An unwrapped use of a type. -/
def ofLeaf (gqlType : String) (leaf : Leaf) : Descriptor :=
  { name := none, gqlType, leaf, list := false, required := false, subRequired := false, fields := none }

/-- A use of a type under a name. -/
def withName (d : Descriptor) (name : String) : Descriptor := { d with name := some name }

/-- Whether the innermost type is a scalar. -/
def isPrimitive (d : Descriptor) : Bool :=
  match d.leaf with
  | .primitive _ => true
  | _ => false

/-- Whether the innermost type is an enumeration. -/
def isEnum (d : Descriptor) : Bool :=
  match d.leaf with
  | .enum _ => true
  | _ => false

/-- The class of the innermost type, if it is a scalar. -/
def scalarClass? (d : Descriptor) : Option ScalarClass :=
  match d.leaf with
  | .primitive cls => some cls
  | _ => none

/-- The values of the innermost type, none if it is no enumeration. -/
def values (d : Descriptor) : List String :=
  match d.leaf with
  | .enum values => values
  | _ => []

/-- The fields, none if the type declares none. -/
def fieldList (d : Descriptor) : Fields := d.fields.getD []

/-- The GraphQL spelling of the reference. -/
def signature (d : Descriptor) : String :=
  let inner := if d.list then "[" ++ d.gqlType ++ (if d.subRequired then "!" else "") ++ "]" else d.gqlType
  inner ++ (if d.required then "!" else "")

/-- The own name, or else the name of the type. -/
def displayName (d : Descriptor) : String := d.name.getD d.gqlType

end Descriptor

end SdkLoom
