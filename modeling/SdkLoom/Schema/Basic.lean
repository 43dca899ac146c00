/-!
# GraphQL schemas

A schema as introspection describes it: named type definitions in order, possibly several of one name, and the names of
the root operation types.
-/

namespace SdkLoom

/-- The kind of a type; `other` stands for every kind that is not known. -/
inductive TypeKind where
  | scalar
  | object
  | interface
  | union
  | enum
  | inputObject
  | list
  | nonNull
  | other
  deriving DecidableEq, Repr, Inhabited

namespace TypeKind

/-- The spelling of a kind in introspection answers. -/
def code : TypeKind → String
  | .scalar => "SCALAR"
  | .object => "OBJECT"
  | .interface => "INTERFACE"
  | .union => "UNION"
  | .enum => "ENUM"
  | .inputObject => "INPUT_OBJECT"
  | .list => "LIST"
  | .nonNull => "NON_NULL"
  | .other => "OTHER"

/-- The kind with a spelling; any other spelling is of kind `other`. -/
def ofCode : String → TypeKind
  | "SCALAR" => .scalar
  | "OBJECT" => .object
  | "INTERFACE" => .interface
  | "UNION" => .union
  | "ENUM" => .enum
  | "INPUT_OBJECT" => .inputObject
  | "LIST" => .list
  | "NON_NULL" => .nonNull
  | _ => .other

/-- The name of a kind in diagnostics. -/
def label : TypeKind → String
  | .scalar => "Scalar"
  | .object => "Object"
  | .interface => "Interface"
  | .union => "Union"
  | .enum => "Enum"
  | .inputObject => "InputObject"
  | .list => "List"
  | .nonNull => "NonNull"
  | .other => "Other"

end TypeKind

/-- A reference to a type: a named type, or a wrapper around another reference. -/
structure TypeRef where
  kind : TypeKind
  name : Option String
  ofType : Option TypeRef
  deriving Inhabited, Repr

namespace TypeRef

/-- A reference to a named type. -/
def named (kind : TypeKind) (name : String) : TypeRef := ⟨kind, some name, none⟩

/-- A reference that excludes null. -/
def nonNull (inner : TypeRef) : TypeRef := ⟨.nonNull, none, some inner⟩

/-- A reference to lists of another. -/
def list (inner : TypeRef) : TypeRef := ⟨.list, none, some inner⟩

/-- The name inside of all nameless wrappers. -/
def baseName : TypeRef → Option String
  | ⟨_, some name, _⟩ => some name
  | ⟨_, none, some inner⟩ => inner.baseName
  | ⟨_, none, none⟩ => none

end TypeRef

/-- An argument, or a field of an input type. -/
structure InputValue where
  name : String
  description : Option String
  type : TypeRef
  defaultValue : Option String
  deriving Inhabited, Repr

/-- A field of an output type. -/
structure FieldDef where
  name : String
  description : Option String
  args : List InputValue
  type : TypeRef
  deriving Inhabited, Repr

/-- A value of an enumeration. -/
structure EnumValue where
  name : String
  description : Option String
  deriving Inhabited, Repr

/-- The definition of a named type. -/
structure TypeDef where
  kind : TypeKind
  name : String
  description : Option String
  fields : Option (List FieldDef)
  inputFields : Option (List InputValue)
  enumValues : Option (List EnumValue)
  deriving Inhabited, Repr

/-- A schema: its root operation types by name, and its type definitions in order. -/
structure Schema where
  queryType : Option String
  mutationType : Option String
  subscriptionType : Option String
  types : List TypeDef
  deriving Inhabited, Repr

/-- The first definition of a name. -/
def Schema.firstNamed? (s : Schema) (name : String) : Option TypeDef := s.types.find? fun t => t.name == name

end SdkLoom
