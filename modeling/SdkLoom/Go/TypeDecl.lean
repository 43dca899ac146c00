import SdkLoom.Go.Columns
import SdkLoom.Go.TypeExpr

/-!
# Go type declarations

The declaration of a type of a model, as a value and as text.
-/

namespace SdkLoom.Go

/-- A field of a structure. -/
structure StructField where
  ident : String
  type : TypeExpr
  json : String
  deriving DecidableEq, Repr, Inhabited

/-- A constant of an enumeration. -/
structure EnumConstant where
  ident : String
  value : String
  deriving DecidableEq, Repr, Inhabited

/-- The declaration of a type. -/
inductive TypeDecl where
  | enum (ident : String) (constants : List EnumConstant)
  | struct (ident : String) (fields : List StructField)
  | defined (ident : String) (type : TypeExpr)
  deriving DecidableEq, Repr, Inhabited

/-- The text of the fields of a structure. -/
def fieldRows (fs : List StructField) : String :=
  columns (fs.map fun f => [f.ident, f.type.text, jsonTag f.json])

/-- The text of a structure. -/
def structText (ident : String) (fs : List StructField) : String :=
  "type " ++ ident ++ " struct \x7b\n" ++ fieldRows fs ++ "\x7d\n"

namespace TypeDecl

/-- The name that a declaration declares. -/
def ident : TypeDecl → String
  | .enum ident _ => ident
  | .struct ident _ => ident
  | .defined ident _ => ident

/-- The text of the constants of an enumeration, if it has any. -/
def constantsText (ident : String) (cs : List EnumConstant) : String :=
  if cs.isEmpty then ""
  else
    "\nconst (\n" ++ columns (cs.map fun c => [c.ident, ident, "= " ++ stringLiteral c.value]) ++ ")\n"

/-- The text of a declaration. -/
def text : TypeDecl → String
  | .enum ident cs => "type " ++ ident ++ " string\n" ++ constantsText ident cs
  | .struct ident fs => structText ident fs
  | .defined ident t => "type " ++ ident ++ " " ++ t.text ++ "\n"

/-- The structure of the fields of a type. -/
def ofFields (ps : Primitives) (name : String) (fs : Fields) : TypeDecl :=
  .struct (exported name) (List.map (fun (f : String × Descriptor) =>
    { ident := exported f.1, type := .ofDescriptor ps "" (some name) f.2, json := f.1 }) fs)

/-- The declaration of a type under a name: constants for an enumeration, a structure for what has fields. -/
def ofDescriptor (ps : Primitives) (name : String) (d : Descriptor) : TypeDecl :=
  match d.leaf with
  | .enum values =>
    .enum (exported name) (values.map fun v => { ident := exported name ++ exported v, value := v })
  | .object => ofFields ps name d.fieldList
  | .input => ofFields ps name d.fieldList
  | .unknown =>
    match d.fields with
    | some fs => ofFields ps name fs
    | none => .defined (exported name) (.scalar ps.unknown)
  | .primitive _ => .defined (exported name) (.scalar ps.unknown)

end TypeDecl

end SdkLoom.Go
