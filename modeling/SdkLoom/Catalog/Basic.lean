import SdkLoom.Error
import SdkLoom.Model.Basic

/-!
# Operation catalogs

Every field of the query root and of the mutation root is an operation. The catalog has each of them twice: as a query
entry, from which query text is made, and as a method, from which signatures are made.
-/

namespace SdkLoom

/-- Whether an operation reads or writes. -/
inductive OperationKind where
  | query
  | mutation
  deriving DecidableEq, Repr, Inhabited

/-- The keyword of a kind. -/
def OperationKind.code : OperationKind → String
  | .query => "query"
  | .mutation => "mutation"

/-- What query text is made from. -/
structure QueryEntry where
  name : String
  kind : OperationKind
  args : Fields
  fields : Fields
  deriving Inhabited

/-- What a signature is made from. -/
structure Method where
  name : String
  args : Fields
  returnType : Descriptor
  isAsync : Bool
  kind : OperationKind
  deriving Inhabited

/-- The operations by name, in the order of the root fields. -/
structure Catalog where
  queries : OrderedMap QueryEntry
  methods : OrderedMap Method
  deriving Inhabited

/-- A field of a root type, with the kind of that root. -/
structure RootField where
  kind : OperationKind
  field : FieldDef

/-- The fields of a root type; a root is the name of an object type. -/
def Index.rootFields (idx : Index) (kind : OperationKind) (root : String) : Except Error (List RootField) :=
  match idx.get? root with
  | some t =>
    if t.kind = .object then .ok ((t.fields.getD []).map fun field => { kind, field })
    else .error (.missingRoot root)
  | none => .error (.missingRoot root)

/-- The name of the query root where the schema gives none. -/
def Schema.defaultQueryRoot : String := "Query"

/-- The fields of the query root and then those of the mutation root, if the schema names one. -/
def Schema.rootFields (s : Schema) : Except Error (List RootField) := do
  let queries ← s.index.rootFields .query (s.queryType.getD Schema.defaultQueryRoot)
  match s.mutationType with
  | none => return queries
  | some root => return queries ++ (← s.index.rootFields .mutation root)

namespace Catalog

/-- The catalog without operations. -/
def empty : Catalog := { queries := [], methods := [] }

/-- The number of operations. -/
def size (c : Catalog) : Nat := c.queries.length

/-- Adds the operation of a root field; a later field of the same name takes the place of an earlier one. -/
def addField (idx : Index) (m : Model) (c : Catalog) (f : RootField) : Catalog :=
  let name := f.field.name
  let args := idx.inputMap f.field.args
  let returnType := idx.describeRef f.field.type
  let fields := ((m.get? returnType.gqlType).map Descriptor.fieldList).getD []
  { queries := c.queries.insert name { name, kind := f.kind, args, fields }
    methods := c.methods.insert name { name, args, returnType, isAsync := true, kind := f.kind } }

/-- The catalog of root fields. -/
def ofFields (idx : Index) (m : Model) (fs : List RootField) : Catalog := fs.foldl (addField idx m) empty

/-- The remarks on root fields. -/
def notes (idx : Index) (fs : List RootField) : List Diagnostic :=
  fs.flatMap fun f => idx.inputNotes (some f.field.args) ++ idx.refNotes f.field.type

end Catalog

end SdkLoom
