import SdkLoom.Diagnostic
import SdkLoom.Error
import SdkLoom.Schema.Basic
import SdkLoom.Sdl.Grammar

/-!
# Schemas of schema documents

A schema document as a schema: every type definition is converted in order, references take the kind of the last
definition of their name, and the built-in scalars that are not defined are added at the end.
-/

namespace SdkLoom

namespace Sdl

/-- The scalars that need no definition. -/
def builtinScalars : List String := ["Boolean", "Float", "ID", "Int", "String"]

/-- The kind of a type definition. -/
def Body.kind : Body → TypeKind
  | .scalar => .scalar
  | .object _ => .object
  | .interface _ => .interface
  | .union => .union
  | .enum _ => .enum
  | .input _ => .inputObject

/-- The kind of a name: that of its last definition, or scalar if it is built in. -/
def kindOf? (defs : List TypeDef) (name : String) : Option TypeKind :=
  match defs.reverse.find? fun t => t.name == name with
  | some t => some t.body.kind
  | none => if builtinScalars.contains name then some .scalar else none

/-- The reference of a written type. -/
def TypeExpr.toRef (defs : List TypeDef) : TypeExpr → Except Error TypeRef
  | .named name =>
    match kindOf? defs name with
    | some kind => .ok (.named kind name)
    | none => .error (.unknownType name)
  | .list item => (item.toRef defs).map .list
  | .nonNull inner => (inner.toRef defs).map .nonNull

/-- An argument or input field of a schema. -/
def InputValue.convert (defs : List TypeDef) (v : InputValue) : Except Error SdkLoom.InputValue := do
  let type ← v.type.toRef defs
  return { name := v.name, description := v.description, type, defaultValue := v.default.map Value.text }

/-- A field of a schema; its arguments come before its type. -/
def Field.convert (defs : List TypeDef) (f : Field) : Except Error FieldDef := do
  let args ← f.args.mapM (InputValue.convert defs)
  let type ← f.type.toRef defs
  return { name := f.name, description := f.description, args, type }

/-- A type definition of a schema. -/
def TypeDef.convert (defs : List TypeDef) (t : TypeDef) : Except Error SdkLoom.TypeDef := do
  let plain : SdkLoom.TypeDef :=
    { kind := t.body.kind, name := t.name, description := t.description, fields := none, inputFields := none,
      enumValues := none }
  match t.body with
  | .scalar => return plain
  | .union => return plain
  | .object fs => return { plain with fields := some (← fs.mapM (Field.convert defs)) }
  | .interface fs => return { plain with fields := some (← fs.mapM (Field.convert defs)) }
  | .enum vs => return { plain with enumValues := some (vs.map fun v => { name := v.name, description := v.description }) }
  | .input fs => return { plain with inputFields := some (← fs.mapM (InputValue.convert defs)) }

/-- The definition of a built-in scalar. -/
def scalarDef (name : String) : SdkLoom.TypeDef :=
  { kind := .scalar, name, description := none, fields := none, inputFields := none, enumValues := none }

/-- The definitions of the built-in scalars that a list of definitions lacks. -/
def missingScalars (types : List SdkLoom.TypeDef) : List SdkLoom.TypeDef :=
  (builtinScalars.filter fun n => !types.any fun t => t.name == n).map scalarDef

/-- A root type: the declared one where the document has a schema definition, else the one of the usual name. -/
def rootOf (d : Document) (declared : Roots → Option String) (usual : String) : Option String :=
  match lastRoots? d with
  | some roots => declared roots
  | none => if (kindOf? (typeDefs d) usual).isSome then some usual else none

end Sdl

/-- The schema of a document. -/
def Schema.ofDocument (d : Sdl.Document) : Except Error Schema := do
  let defs := Sdl.typeDefs d
  let types ← defs.mapM (Sdl.TypeDef.convert defs)
  return {
    queryType := Sdl.rootOf d Sdl.Roots.query "Query"
    mutationType := Sdl.rootOf d Sdl.Roots.mutation "Mutation"
    subscriptionType := Sdl.rootOf d Sdl.Roots.subscription "Subscription"
    types := types ++ Sdl.missingScalars types }

/-- The remarks on a document: one for each type extension. -/
def Sdl.notes (d : Sdl.Document) : List Diagnostic :=
  d.filterMap fun
    | .extension => some .extensionSkipped
    | _ => none

/-- The schema of a document's text. -/
def Schema.ofSdl (text : String) : Except Error Schema :=
  match Sdl.Document.read text with
  | some d => Schema.ofDocument d
  | none => .error .sdlSyntax

/-- The remarks on a document's text. -/
def Schema.sdlNotes (text : String) : List Diagnostic := ((Sdl.Document.read text).map Sdl.notes).getD []

end SdkLoom
