import SdkLoom.Json.Decode
import SdkLoom.Yaml.Node
import SdkLoom.Yaml.Value

/-!
# Reading YAML documents

A `View` is a node with the anchors of its document around it, which resolve the aliases in it. It can be read as a text, as
items, as members, or as a JSON value.

Aliases can repeat a node many times over, and can stand inside the node they refer to. Values are therefore read to a limited
depth, and `Document.isModest` limits how often aliases are followed by the size of the document.
-/

namespace SdkLoom.Yaml

/-- The nesting that a document may have. -/
def depthLimit : Nat := 128

/-- A node and the anchored nodes that its aliases refer to. -/
structure View where
  anchors : List (Nat × Node)
  node : Node

namespace View

/-- Another node of the same document. -/
def inner (v : View) (n : Node) : View := { v with node := n }

/-- The node itself, or the one that it is an alias of. -/
def target (v : View) : Node :=
  match v.node with
  | .alias id => (v.anchors.lookup id).getD .blank
  | n => n

/-- A scalar's text, whatever it means. -/
def string? (v : View) : Option String :=
  match v.target with
  | .scalar _ _ s => some s
  | _ => none

/-- Whether a node stands for nothing. -/
def isVoid (v : View) : Bool :=
  match v.target with
  | .scalar _ true "" => true
  | _ => false

/-- Whether a node in the place of an optional value leaves it out; a node tagged as null has to be null. -/
def isNull? (v : View) : Option Bool :=
  match v.target with
  | .scalar none true s => some (s == "" || isNullWord s)
  | .scalar (some tag) true s =>
    if tag == coreTag ++ "null" then if isNullWord s then some true else none else some false
  | _ => some false

/-- The items of a sequence. -/
def items? (v : View) : Option (List View) :=
  match v.target with
  | .sequence _ items => some (items.map v.inner)
  | _ => if v.isVoid then some [] else none

/-- The entries of a mapping, whose keys are scalars. -/
def members? (v : View) : Option (List (String × View)) :=
  match v.target with
  | .mapping _ entries => entries.mapM fun (e : Node × Node) => (v.inner e.1).string?.map (·, v.inner e.2)
  | _ => if v.isVoid then some [] else none

/-- The known fields of a mapping. -/
def record? (names : List String) (v : View) : Option (Json.Record View) :=
  v.members?.bind (Json.Record.ofMembers? names)

/-- A key's text; where keys are read as values they have to be texts. -/
def key? (strict : Bool) (v : View) : Option String :=
  match v.target with
  | .scalar tag plain s =>
    if strict then
      match scalarValue? tag plain s with
      | some (.str s) => some s
      | _ => none
    else some s
  | _ => none

/-- The value of a node within a nesting limit. With `strict` the keys of mappings have to mean texts. -/
def valueIn? (strict : Bool) (depth : Nat) (v : View) : Option Json :=
  match depth, v.target with
  | _, .scalar tag plain s => scalarValue? tag plain s
  | depth + 1, .sequence tag items =>
    if isLocalTag tag then none else (items.mapM fun n => valueIn? strict depth (v.inner n)).map .arr
  | depth + 1, .mapping tag entries =>
    if isLocalTag tag then none
    else
      let members := entries.mapM fun (e : Node × Node) => do
        let name ← key? strict (v.inner e.1)
        let value ← valueIn? strict depth (v.inner e.2)
        some (name, value)
      members.map fun ms => .obj (Json.Tree.sortMembers ms)
  | _, _ => none

/-- What is left of a budget after each alias within a nesting limit has taken one of it for every time that it is read. -/
def afterAliases? (depth budget : Nat) (v : View) : Option Nat := do
  let budget ← match v.node, budget with
    | .alias _, 0 => none
    | .alias _, budget + 1 => some budget
    | _, budget => some budget
  match depth, v.target with
  | depth + 1, .sequence _ items => items.foldlM (fun budget n => afterAliases? depth budget (v.inner n)) budget
  | depth + 1, .mapping _ entries =>
    entries.foldlM (fun budget (e : Node × Node) => do
      let budget ← afterAliases? depth budget (v.inner e.1)
      afterAliases? depth budget (v.inner e.2)) budget
  | _, _ => some budget

end View

mutual

/-- The number of marks that a node is made of: one for a scalar or an alias, and two around a collection. -/
def Node.size : Node → Nat
  | .scalar _ _ _ => 1
  | .alias _ => 1
  | .sequence _ items => itemsSize items + 2
  | .mapping _ entries => entriesSize entries + 2

/-- The number of marks of items. -/
def Node.itemsSize : List Node → Nat
  | [] => 0
  | n :: rest => n.size + itemsSize rest

/-- The number of marks of entries. -/
def Node.entriesSize : List (Node × Node) → Nat
  | [] => 0
  | (k, n) :: rest => k.size + n.size + entriesSize rest

end

namespace Document

/-- The root with the anchors around it. -/
def view (d : Document) : View := ⟨d.anchors, d.root⟩

/-- How often aliases may be followed for each mark of the document. -/
def aliasesPerMark : Nat := 100

/-- Whether reading the fields of the given names follows aliases no more often than the size of the document allows. -/
def isModest (names : List String) (d : Document) : Bool :=
  let members := match d.root with
    | .mapping _ entries => entries
    | _ => []
  let spend (budget : Nat) (e : Node × Node) : Option Nat := do
    let key := d.view.inner e.1
    let budget ← key.afterAliases? depthLimit budget
    if key.string?.any names.contains then (d.view.inner e.2).afterAliases? depthLimit budget else some budget
  (members.foldlM spend (aliasesPerMark * d.root.size)).isSome

end Document

end SdkLoom.Yaml
