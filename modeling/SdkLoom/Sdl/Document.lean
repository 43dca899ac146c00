import SdkLoom.Decimal.Shortest
import SdkLoom.Map.Sorted

/-!
# Schema documents

A schema document by its structure: type definitions with their fields and arguments, schema definitions with the names of
the root types, and the places of type extensions and directive definitions.
-/

namespace SdkLoom.Sdl

/-- A type as it is written for a field or an argument. -/
inductive TypeExpr where
  | named (name : String)
  | list (item : TypeExpr)
  | nonNull (inner : TypeExpr)
  deriving DecidableEq, Repr, Inhabited

/-- The name inside of all wrappers. -/
def TypeExpr.baseName : TypeExpr → String
  | .named name => name
  | .list item => item.baseName
  | .nonNull inner => inner.baseName

/-- A literal value; the members of an object are in key order. -/
inductive Value where
  | variable (name : String)
  | int (value : Int)
  | float (value : Binary64)
  | string (text : String)
  | boolean (value : Bool)
  | null
  | enum (name : String)
  | list (items : List Value)
  | object (members : List (String × Value))
  deriving Inhabited, Repr

/-- An argument, or a field of an input type. -/
structure InputValue where
  description : Option String
  name : String
  type : TypeExpr
  default : Option Value
  deriving Inhabited, Repr

/-- A field of an object or interface. -/
structure Field where
  description : Option String
  name : String
  args : List InputValue
  type : TypeExpr
  deriving Inhabited, Repr

/-- A value of an enumeration. -/
structure EnumValue where
  description : Option String
  name : String
  deriving Inhabited, Repr

/-- What a type definition says besides its name. -/
inductive Body where
  | scalar
  | object (fields : List Field)
  | interface (fields : List Field)
  | union
  | enum (values : List EnumValue)
  | input (fields : List InputValue)
  deriving Inhabited, Repr

/-- A type definition. -/
structure TypeDef where
  description : Option String
  name : String
  body : Body
  deriving Inhabited, Repr

/-- The root types of a schema definition. -/
structure Roots where
  query : Option String
  mutation : Option String
  subscription : Option String
  deriving Inhabited, Repr

/-- A definition of a document. -/
inductive Definition where
  | schema (roots : Roots)
  | type (definition : TypeDef)
  | extension
  | directive
  deriving Inhabited, Repr

/-- A document: its definitions in order. -/
abbrev Document := List Definition

/-- The type definitions of a document. -/
def typeDefs (d : Document) : List TypeDef :=
  d.filterMap fun
    | .type t => some t
    | _ => none

/-- The last schema definition of a document. -/
def lastRoots? (d : Document) : Option Roots :=
  d.foldl (fun acc definition => match definition with
    | .schema roots => some roots
    | _ => acc) none

end SdkLoom.Sdl
