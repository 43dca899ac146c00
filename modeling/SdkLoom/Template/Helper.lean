import SdkLoom.Json.Printer
import SdkLoom.Template.Scope

/-!
# Helpers of templates

The helpers that templates can call, and what they show. A helper either has a value of its own, or it renders the bodies
that it is given.
-/

namespace SdkLoom.Template

/-! ## Renderings -/

/-- The templates that have been declared, last first. -/
abbrev Library := List (String × List Node)

/-- What shows a text, or fails, and may declare templates on the way. -/
abbrev Rendering := Library → Except Unit (String × Library)

namespace Rendering

/-- Shows a text. -/
def text (s : String) : Rendering := fun lib => .ok (s, lib)

/-- Fails. -/
def fail : Rendering := fun _ => .error ()

/-- Shows one text after the other. -/
def join : List Rendering → Rendering
  | [] => text ""
  | r :: rest => fun lib => do
    let (s, lib) ← r lib
    let (t, lib) ← join rest lib
    return (s ++ t, lib)

end Rendering

/-- A body of a block or template, which is rendered in a scope. -/
abbrev Body := Scope → Rendering

/-- The rendering of a body, or nothing if there is none. -/
def Body.run (scope : Scope) : Option Body → Rendering
  | some render => render scope
  | none => .text ""

/-! ## Helpers -/

/-- The helpers that templates can call. -/
inductive Helper where
  | cond (positive : Bool)
  | each
  | with
  | lookup
  | raw
  | log
  | json
  | same (positive : Bool)
  | ordered (orders : List Ordering)
  | and
  | or
  | not
  | len
  deriving DecidableEq, Repr, Inhabited

namespace Helper

/-- The helper with a name. -/
def ofName? : String → Option Helper
  | "if" => some (.cond true)
  | "unless" => some (.cond false)
  | "each" => some .each
  | "with" => some .with
  | "lookup" => some .lookup
  | "raw" => some .raw
  | "log" => some .log
  | "json" => some .json
  | "eq" => some (.same true)
  | "ne" => some (.same false)
  | "gt" => some (.ordered [.gt])
  | "gte" => some (.ordered [.gt, .eq])
  | "lt" => some (.ordered [.lt])
  | "lte" => some (.ordered [.lt, .eq])
  | "and" => some .and
  | "or" => some .or
  | "not" => some .not
  | "len" => some .len
  | _ => none

/-- What a helper is given: values, named values, and in a block its two bodies. -/
structure Input where
  scope : Scope
  args : List Found
  named : List (String × Json)
  params : List String
  body : Option Body
  inverse : Option Body

/-- An item of a collection: its name there, its value, its key, and the marks that tell where it is. -/
structure Entry where
  name : String
  value : Json
  key : Json
  marks : List (String × Json)

/-- The block of an entry of a collection; one parameter names the value, two name the value and the key. -/
def Entry.block (collection : Found) (e : Entry) (params : List String) : Block :=
  let item : Found := { value := e.value, place := collection.place.map (· ++ [e.name]) }
  { item.block with
    params := match params with
      | [v] => [(v, item.param)]
      | [v, k] => [(k, .value e.key), (v, item.param)]
      | _ => []
    marks := e.marks }

/-- The marks that tell where in a collection an entry is. -/
def places (i size : Nat) : List (String × Json) :=
  [("first", .bool (i == 0)), ("last", .bool (i + 1 == size))]

/-- The entries of a list. -/
def listEntries (items : List Json) : List Entry :=
  items.zipIdx.map fun (v, i) =>
    { name := toString i
      value := v
      key := Json.ofNat i
      marks := ("index", Json.ofNat i) :: places i items.length }

/-- The entries of an object. -/
def objectEntries (members : List (String × Json)) : List Entry :=
  members.zipIdx.map fun ((k, v), i) =>
    { name := k, value := v, key := .str k, marks := ("key", .str k) :: places i members.length }

/-- The entries of a collection, unless it has none or is none. -/
def entries : Json → List Entry
  | .arr items => listEntries items
  | .obj members => objectEntries members
  | _ => []

/-- Renders a body for every entry of a collection. -/
def eachEntry (inp : Input) (collection : Found) (es : List Entry) : Rendering :=
  match inp.body with
  | none => .text ""
  | some render => .join (es.map fun e => render (inp.scope.push (e.block collection inp.params)))

/-- The block about a value, which one parameter may name. -/
def blockAbout (f : Found) (params : List String) : Block :=
  { f.block with
    params := match params with
      | [name] => [(name, f.param)]
      | _ => [] }

/-- Whether a named value asks zero to count as true. -/
def includesZero (named : List (String × Json)) : Bool :=
  match named.lookup "includeZero" with
  | some (.bool b) => b
  | _ => false

/-- The levels of log messages. -/
def logLevels : List String := ["error", "warn", "info", "debug", "trace"]

/-- The value in a collection under an index or a key, or null. -/
def lookupValue : Json → Json → Json
  | .arr items, .num (.int i) => if i < 0 then .null else items[i.toNat]?.getD .null
  | .obj members, .str k => (SortedMap.findEntry k members).getD .null
  | _, _ => .null

/-- Whether two whole numbers of 64 bits stand in one of some orders; other values have none. -/
def compareInts (orders : List Ordering) (a b : Json) : Except Unit Json :=
  match int64? a, int64? b with
  | some x, some y => .ok (.bool (orders.contains (compare x y)))
  | _, _ => .error ()

/-- The value of a helper that has one. -/
def value? (h : Helper) (args : List Json) : Except Unit (Option Json) :=
  match h, args with
  | .lookup, v :: k :: _ => .ok (some (lookupValue v k))
  | .json, v :: _ => .ok (some (.str v.pretty))
  | .same positive, a :: b :: _ => .ok (some (.bool (Json.same a b == positive)))
  | .ordered orders, a :: b :: _ => (compareInts orders a b).map some
  | .and, a :: b :: _ => .ok (some (.bool (truthy false a && truthy false b)))
  | .or, a :: b :: _ => .ok (some (.bool (truthy false a || truthy false b)))
  | .not, a :: _ => .ok (some (.bool (!truthy false a)))
  | .len, a :: _ => .ok (some (Json.ofNat (sizeOf a)))
  | .cond _, _ => .ok none
  | .each, _ => .ok none
  | .with, _ => .ok none
  | .raw, _ => .ok none
  | .log, _ => .ok none
  | _, _ => .error ()

/-- The rendering of a helper that has no value. -/
def rendering (h : Helper) (inp : Input) : Rendering :=
  match h, inp.args with
  | .cond positive, f :: _ =>
    Body.run inp.scope (if truthy (includesZero inp.named) f.value == positive then inp.body else inp.inverse)
  | .each, f :: _ =>
    if (entries f.value).isEmpty then Body.run inp.scope inp.inverse else eachEntry inp f (entries f.value)
  | .with, f :: _ =>
    if truthy false f.value then Body.run (inp.scope.push (blockAbout f inp.params)) inp.body
    else Body.run inp.scope inp.inverse
  | .raw, _ => Body.run inp.scope inp.body
  | .log, _ =>
    match inp.named.lookup "level" with
    | some (.str level) => if logLevels.contains level.toLower then .text "" else .fail
    | _ => .text ""
  | _, _ => .fail

/-- What a helper shows. -/
def output (h : Helper) (inp : Input) : Rendering := fun lib => do
  match ← h.value? (inp.args.map Found.value) with
  | some v => .ok (valueText v, lib)
  | none => h.rendering inp lib

/-- The value of a helper within an expression: its own, or else its text. -/
def inline (h : Helper) (scope : Scope) (args : List Found) (named : List (String × Json)) : Except Unit Json := do
  match ← h.value? (args.map Found.value) with
  | some v => .ok v
  | none =>
    let (s, _) ← h.rendering { scope, args, named, params := [], body := none, inverse := none } []
    return .str s

/-- The helper with a name, or an error. -/
def find (name : String) : Except Unit Helper :=
  match ofName? name with
  | some h => .ok h
  | none => .error ()

end Helper

end SdkLoom.Template
