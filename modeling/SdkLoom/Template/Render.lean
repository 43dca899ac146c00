import SdkLoom.Template.Helper
import SdkLoom.Template.Reader

/-!
# Rendering templates

A template is rendered with the values of the blocks around it. Values are shown as they are, without any escapes, and a
value that is not there shows as nothing; an unknown helper, a template that is not declared, or a missing argument is an
error.

A template that is included may include itself, so the rendering of a node takes the rendering of included templates as a
parameter, and `renderIn` ties the two together up to a depth.
-/

namespace SdkLoom.Template

/-! ## Arguments -/

mutual

/-- The value of an argument, if there is one. -/
def Argument.eval (scope : Scope) : Argument → Except Unit (Option Found)
  | .literal v => .ok (some (.alone v))
  | .path _ p => scope.resolve p
  | .call name args named => do
    let args ← Argument.evalAll scope args
    let named ← Argument.evalNamed scope named
    let h ← Helper.find name
    return some (.alone (← h.inline scope args named))

/-- The values of arguments; what is not there is null. -/
def Argument.evalAll (scope : Scope) : List Argument → Except Unit (List Found)
  | [] => .ok []
  | a :: rest => do
    let v ← a.eval scope
    return v.getD .nothing :: (← Argument.evalAll scope rest)

/-- The values of named arguments, the last of a name first. -/
def Argument.evalNamed (scope : Scope) : List (String × Argument) → Except Unit (List (String × Json))
  | [] => .ok []
  | (k, a) :: rest => do
    let v ← a.eval scope
    return (← Argument.evalNamed scope rest) ++ [(k, (v.getD .nothing).value)]

end

/-- The text of the value of an argument. -/
def Argument.textIn (scope : Scope) (a : Argument) : Except Unit String := do
  return ((← a.eval scope).map fun f => valueText f.value).getD ""

/-- The spelling of an argument as the name of a helper. -/
def Argument.spelling (scope : Scope) : Argument → Except Unit String
  | .path spelling _ => .ok spelling
  | a => a.textIn scope

/-- The name of a template to include. -/
def Name.textIn (scope : Scope) : Name → Except Unit String
  | .written name => .ok name
  | .computed a => a.textIn scope

/-- Calls a helper with its bodies. -/
def Call.run (c : Call) (scope : Scope) (params : List String) (body inverse : Option Body) : Rendering := fun lib => do
  let args ← Argument.evalAll scope c.args
  let named ← Argument.evalNamed scope c.named
  let h ← Helper.find c.name
  h.output { scope, args, named, params, body, inverse } lib

/-- The text of a value on its own: where its spelling names a helper, the helper is called without arguments. -/
def Argument.show (scope : Scope) (a : Argument) : Rendering := fun lib => do
  match Helper.ofName? (← a.spelling scope) with
  | some h => h.output { scope, args := [], named := [], params := [], body := none, inverse := none } lib
  | none => return (scope.written (← a.textIn scope), lib)

/-! ## Declared templates -/

/-- Declares the body of a block as a template. -/
def Call.declare (c : Call) (scope : Scope) (body : Option (List Node)) (lib : Library) : Except Unit Library := do
  let args ← Argument.evalAll scope c.args
  let _ ← Argument.evalNamed scope c.named
  match c.name, args.map Found.value, body with
  | "inline", .str name :: _, some nodes => .ok ((name, nodes) :: lib)
  | _, _, _ => .error ()

/-- Makes the declarations among nodes. -/
def declareAll (scope : Scope) : List Node → Library → Except Unit Library
  | [], lib => .ok lib
  | .declaration c body :: rest, lib => do declareAll scope rest (← c.declare scope body lib)
  | _ :: rest, lib => declareAll scope rest lib

/-- The name under which an included template finds the body of its inclusion. -/
def slotName : String := "@partial-block"

/-- An object with named values put into it; what is no object counts as an empty one. -/
def mergeNamed (v : Json) (named : List (String × Json)) : Json :=
  let members := match v with
    | .obj members => members
    | _ => []
  .obj (named.reverse.foldl (fun ms (m : String × Json) => SortedMap.insertEntry m.1 m.2 ms) members)

namespace Scope

/-- The scope of an included template: a value with a place in the data becomes what it is about, and named values are put
into that; with either, the blocks around the inclusion are left. -/
def including (s : Scope) (arg : Option Found) (named : List (String × Json)) : Except Unit Scope := do
  let about : Option Block := (arg.filter fun f => f.place.isSome).map Found.block
  if named.isEmpty then
    return match about with
      | some b => { s with blocks := [b] }
      | none => s
  else
    let b := about.getD (s.blocks.head?.getD { place := [], value := none, params := [], marks := [] })
    let s := { s with blocks := [b] }
    let v := ((← s.subject).getD .nothing).value
    return { s with blocks := [{ b with value := some (mergeNamed v named) }] }

/-- The scope in which the body of an inclusion can be included by a name, and the level of bodies is that of what the name
stands for. -/
def withSlot (s : Scope) (name : String) (body : Option (List Node)) : Scope :=
  { s with
    slots := body.toList ++ s.slots
    inSlots := if name = slotName then s.inSlots + 1 else s.inSlots - 1 }

/-- The template with a name. -/
def template? (s : Scope) (lib : Library) (name : String) : Option (List Node) :=
  if name = slotName then s.slots[s.inSlots]? else lib.lookup name

end Scope

/-- Includes a template, or else the body of the inclusion. What the template declares is not known after it. -/
def Inclusion.run (render : List Node → Body) (scope : Scope) (i : Inclusion) (body : Option (List Node)) : Rendering :=
  fun lib => do
    let name ← i.name.textIn scope
    let args ← Argument.evalAll scope i.args
    let named ← Argument.evalNamed scope i.named
    let lib ← declareAll scope (body.getD []) lib
    match (scope.template? lib name).or body with
    | none => .error ()
    | some nodes =>
      let inner ← scope.including args.head? named
      let (s, _) ← render nodes { inner.withSlot name body with indent := i.indent } lib
      return (s, lib)

/-! ## Nodes -/

mutual

/-- The rendering of a node, given that of included templates. -/
def Node.render (included : List Node → Body) (scope : Scope) : Node → Rendering
  | .text s => .text (scope.written s)
  | .value a => a.show scope
  | .call c => c.run scope [] none none
  | .block c params body inverse =>
    c.run scope params (some fun inner => Node.renderAll included inner body)
      (match inverse with
        | some nodes => some fun inner => Node.renderAll included inner nodes
        | none => none)
  | .inclusion i body => i.run included scope body
  | .declaration c body => fun lib => do return ("", ← c.declare scope body lib)

/-- The rendering of nodes. -/
def Node.renderAll (included : List Node → Body) (scope : Scope) : List Node → Rendering
  | [] => .text ""
  | n :: rest => fun lib => do
    let (s, lib) ← n.render included scope lib
    let (t, lib) ← Node.renderAll included scope rest lib
    return (s ++ t, lib)

end

/-- The rendering of a template, in which inclusions go down to a depth. -/
def renderIn : Nat → List Node → Body
  | 0, _, _ => .fail
  | depth + 1, nodes, scope => Node.renderAll (renderIn depth) scope nodes

/-- How deep inclusions go. -/
def depthLimit : Nat := 500

/-- The text of a template with its data, or none where the template is malformed or asks for what is not there. -/
def render (template : String) (data : Json) : Option String := do
  let nodes ← read template
  let (s, _) ← (renderIn depthLimit nodes (Scope.ofData data) []).toOption
  return s

end SdkLoom.Template
