import SdkLoom.Template.Node
import SdkLoom.Template.Value

/-!
# Scopes of templates

Where the paths of a template lead. A block is about a place in the data, or about a value of its own; paths start at the
innermost block, or as many blocks further out as they have steps up.
-/

namespace SdkLoom.Template

/-- What a block parameter stands for: the place that its block is about, or a value. -/
inductive Param where
  | place
  | value (v : Json)
  deriving Inhabited

/-- A block: the place that it is about, the value that it is about in place of that, the parameters that it names, and the
marks that it sets. -/
structure Block where
  place : List String
  value : Option Json
  params : List (String × Param)
  marks : List (String × Json)
  deriving Inhabited

/-- A value, with its place in the data unless it stands for itself. -/
structure Found where
  value : Json
  place : Option (List String)
  deriving Inhabited

namespace Found

/-- A value that stands for itself. -/
def alone (v : Json) : Found := { value := v, place := none }

/-- What is not there counts as null. -/
def nothing : Found := alone .null

/-- The block about a value. -/
def block (f : Found) : Block :=
  { place := f.place.getD []
    value := if f.place.isSome then none else some f.value
    params := []
    marks := [] }

/-- What a parameter of the block about a value stands for. -/
def param (f : Found) : Param := if f.place.isSome then .place else .value f.value

end Found

/-- The blocks around a place in a template, innermost first, and the data of the template; the bodies of the inclusions
around it, innermost first, and the number of them that are being rendered; and the space that lines are set in by. -/
structure Scope where
  data : Json
  blocks : List Block
  slots : List (List Node)
  inSlots : Nat
  indent : Option String
  deriving Inhabited

namespace Scope

/-- The scope of a whole template. -/
def ofData (data : Json) : Scope :=
  { data, blocks := [{ place := [], value := none, params := [], marks := [] }], slots := [], inSlots := 0, indent := none }

/-- The scope inside of a block. -/
def push (s : Scope) (b : Block) : Scope := { s with blocks := b :: s.blocks }

/-- The value at a place of the data, if there is one. -/
def atPlace (s : Scope) (place : List String) : Except Unit (Option Found) := do
  return (← navigate s.data place).map fun v => { value := v, place := some place }

/-- The value at the end of a path within a value, if there is one. -/
def within (v : Json) (names : List String) : Except Unit (Option Found) := do
  return (← navigate v names).map Found.alone

/-- The value at the end of a path from what a block is about. -/
def fromBlock (s : Scope) (b : Block) (names : List String) : Except Unit (Option Found) :=
  match b.value with
  | some v => within v names
  | none => s.atPlace (b.place ++ names)

/-- The nearest block parameter with a name, and its block. -/
def param? (s : Scope) (name : String) : Option (Block × Param) :=
  s.blocks.findSome? fun b => (b.params.lookup name).map fun p => (b, p)

/-- The block some levels up; where there are not so many it is the innermost one. -/
def blockAt (s : Scope) (ups : Nat) : Option Block := s.blocks[ups]?.or s.blocks.head?

/-- The value at a path, if there is one. A block parameter is found from any level; steps up before its name make the name
a part of the path below it. -/
def resolve (s : Scope) : Path → Except Unit (Option Found)
  | .blockVariable level name => .ok ((s.blocks[level]?.bind fun b => b.marks.lookup name).map Found.alone)
  | .root names => s.atPlace names
  | .context ups names =>
    match names.head?.bind s.param? with
    | some (b, p) =>
      let below := if ups = 0 then names.drop 1 else names
      match p with
      | .place => s.atPlace (b.place ++ below)
      | .value v => within v below
    | none =>
      match s.blockAt ups with
      | some b => s.fromBlock b names
      | none => s.atPlace names

/-- What the innermost block is about. -/
def subject (s : Scope) : Except Unit (Option Found) := s.resolve (.context 0 [])

/-- A text as it is written: after each line break in it, other than at its end, comes the space that lines are set in
by. -/
def setIn (indent : List Char) : List Char → List Char
  | [] => []
  | ['\n'] => ['\n']
  | '\n' :: rest => '\n' :: indent ++ setIn indent rest
  | c :: rest => c :: setIn indent rest

/-- A text as it is written in a scope. -/
def written (s : Scope) (text : String) : String :=
  match s.indent with
  | some space => String.ofList (setIn space.toList text.toList)
  | none => text

end Scope

end SdkLoom.Template
