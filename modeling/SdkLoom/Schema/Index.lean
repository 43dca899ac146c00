import SdkLoom.Descriptor.Basic
import SdkLoom.Diagnostic
import SdkLoom.Map.Sorted
import SdkLoom.Schema.Basic

/-!
# Looking up and describing the types of a schema

An index gives the last definition of every name. With it a reference or a definition is resolved to a `Shape`, and a
shape folds into a descriptor. Fields are described one level deep: a reference never brings fields along.
-/

namespace SdkLoom

/-- A resolved reference or definition; only definitions have fields. -/
inductive Shape where
  | scalar (name : String)
  | enum (name : String) (values : List String)
  | object (name : String) (fields : Option (List FieldDef))
  | input (name : String) (fields : Option (List InputValue))
  | nonNull (inner : Shape)
  | list (item : Shape)
  | other (name : String) (kind : TypeKind) (fields : Option (List FieldDef))

/-- The last definition of every name of a schema. -/
abbrev Index := SortedMap String TypeDef

/-- The values of an enumeration. -/
def TypeDef.literals (t : TypeDef) : List String := (t.enumValues.getD []).map EnumValue.name

/-- The index of a schema. -/
def Schema.index (s : Schema) : Index := SortedMap.ofList (s.types.map fun t => (t.name, t))

namespace Index

/-- The values of the enumeration of a name, none if it is not defined. -/
def enumValues (idx : Index) (name : String) : List String := ((idx.get? name).map TypeDef.literals).getD []

/-- The shape of a reference. -/
def shapeOfRef (idx : Index) : TypeRef → Shape
  | ⟨.nonNull, _, some inner⟩ => .nonNull (idx.shapeOfRef inner)
  | ⟨.list, _, some inner⟩ => .list (idx.shapeOfRef inner)
  | ⟨.scalar, name, _⟩ => .scalar (name.getD "")
  | ⟨.enum, name, _⟩ => .enum (name.getD "") (idx.enumValues (name.getD ""))
  | ⟨.object, name, _⟩ => .object (name.getD "") none
  | ⟨.inputObject, name, _⟩ => .input (name.getD "") none
  | ⟨kind, name, _⟩ => .other (name.getD "") kind none

/-- The shape of a definition. -/
def shapeOfDef (t : TypeDef) : Shape :=
  match t.kind with
  | .scalar => .scalar t.name
  | .enum => .enum t.name t.literals
  | .object => .object t.name t.fields
  | .inputObject => .input t.name t.inputFields
  | kind => .other t.name kind t.fields

end Index

/-- The descriptor of a scalar. -/
def Descriptor.ofScalar (name : String) : Descriptor :=
  .ofLeaf name (.primitive ((ScalarClass.ofScalar? name).getD .unknown))

/-- Fields described by a function; an empty list of them counts as none. -/
def describedFields? {α : Type} (describe : List α → Fields) : Option (List α) → Option Fields
  | some (f :: fs) => some (describe (f :: fs))
  | _ => none

/-- The descriptor of a shape, given how fields and input fields are described. -/
def Shape.descriptor (fieldMap : List FieldDef → Fields) (inputMap : List InputValue → Fields) : Shape → Descriptor
  | .scalar name => .ofScalar name
  | .enum name values => .ofLeaf name (.enum values)
  | .object name fields => { Descriptor.ofLeaf name .object with fields := describedFields? fieldMap fields }
  | .input name fields => { Descriptor.ofLeaf name .input with fields := describedFields? inputMap fields }
  | .nonNull inner => { inner.descriptor fieldMap inputMap with required := true }
  | .list item =>
    let d := item.descriptor fieldMap inputMap
    { d with subRequired := d.required, required := false, list := true }
  | .other name _ fields => { Descriptor.ofLeaf name .unknown with fields := describedFields? fieldMap fields }

namespace Index

/-- The descriptor of a reference. -/
def describeRef (idx : Index) (r : TypeRef) : Descriptor :=
  (idx.shapeOfRef r).descriptor (fun _ => []) (fun _ => [])

/-- The descriptors of fields by name. -/
def fieldMap (idx : Index) (fs : List FieldDef) : Fields :=
  OrderedMap.ofEntries (fs.map fun f => (f.name, (idx.describeRef f.type).withName f.name))

/-- The descriptors of arguments or input fields by name. -/
def inputMap (idx : Index) (vs : List InputValue) : Fields :=
  OrderedMap.ofEntries (vs.map fun v => (v.name, (idx.describeRef v.type).withName v.name))

/-- The descriptor of a definition. -/
def describeDef (idx : Index) (t : TypeDef) : Descriptor :=
  (shapeOfDef t).descriptor idx.fieldMap idx.inputMap

/-! ## Diagnostics -/

/-- The remarks on a reference. -/
def refNotes (idx : Index) : TypeRef → List Diagnostic
  | ⟨.nonNull, _, some inner⟩ => idx.refNotes inner
  | ⟨.list, _, some inner⟩ => idx.refNotes inner
  | ⟨.scalar, name, _⟩ =>
    if (ScalarClass.ofScalar? (name.getD "")).isSome then [] else [.unknownScalar (name.getD "")]
  | ⟨.enum, name, _⟩ => if idx.contains (name.getD "") then [] else [.enumWithoutDefinition (name.getD "")]
  | ⟨.object, _, _⟩ => []
  | ⟨.inputObject, _, _⟩ => []
  | ⟨kind, name, _⟩ => [.unknownKind (name.getD "") kind]

/-- The remarks on fields. -/
def fieldNotes (idx : Index) (fs : Option (List FieldDef)) : List Diagnostic :=
  (fs.getD []).flatMap fun f => idx.refNotes f.type

/-- The remarks on arguments or input fields. -/
def inputNotes (idx : Index) (vs : Option (List InputValue)) : List Diagnostic :=
  (vs.getD []).flatMap fun v => idx.refNotes v.type

/-- The remarks on a definition. -/
def defNotes (idx : Index) (t : TypeDef) : List Diagnostic :=
  match t.kind with
  | .scalar => if (ScalarClass.ofScalar? t.name).isSome then [] else [.unknownScalar t.name]
  | .enum => []
  | .object => idx.fieldNotes t.fields
  | .inputObject => idx.inputNotes t.inputFields
  | kind => .unknownKind t.name kind :: idx.fieldNotes t.fields

end Index

end SdkLoom
