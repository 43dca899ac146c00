import SdkLoom.Sdl.Token

/-!
# Grammar of schema documents

A reader of documents that looks one token ahead. Loops and nested values are bounded by the number of tokens that are
left, since every turn takes one.
-/

namespace SdkLoom.Sdl

namespace Grammar

/-- Reads something from the front of a list of tokens. -/
abbrev Reader (α : Type) := List Token → Option (α × List Token)

variable {α : Type}

/-- A mark. -/
def mark (c : Char) : Reader Unit
  | .mark d :: rest => if d = c then some ((), rest) else none
  | _ => none

/-- A name. -/
def name : Reader String
  | .name s :: rest => some (s, rest)
  | _ => none

/-- A certain word. -/
def word (w : String) : Reader Unit
  | .name s :: rest => if s = w then some ((), rest) else none
  | _ => none

/-- Whether a mark comes next. -/
def atMark (c : Char) : List Token → Bool
  | .mark d :: _ => d == c
  | _ => false

/-- Whether a certain word comes next. -/
def atWord (w : String) : List Token → Bool
  | .name s :: _ => s == w
  | _ => false

/-- Passes over a mark if it comes next. -/
def skipMark (c : Char) (ts : List Token) : List Token := if atMark c ts then ts.drop 1 else ts

/-- Items up to a closing mark, which is taken too. -/
def itemsUntil (close : Char) (item : Reader α) : Nat → Reader (List α)
  | 0, _ => none
  | fuel + 1, ts =>
    if atMark close ts then some ([], ts.drop 1)
    else do
      let (x, ts) ← item ts
      let (xs, ts) ← itemsUntil close item fuel ts
      return (x :: xs, ts)

/-- Items between brackets. -/
def bracketed (opening close : Char) (item : Reader α) (ts : List Token) : Option (List α × List Token) := do
  let (_, ts) ← mark opening ts
  itemsUntil close item (ts.length + 1) ts

/-- At least one item between brackets, if the opening bracket comes next. -/
def block? (opening close : Char) (item : Reader α) (ts : List Token) : Option (Option (List α) × List Token) :=
  if atMark opening ts then do
    let (xs, ts) ← bracketed opening close item ts
    if xs.isEmpty then none else some (some xs, ts)
  else some (none, ts)

/-- Names separated by a mark, after an optional first mark. -/
def separated (sep : Char) : Nat → Reader (List String)
  | 0, _ => none
  | fuel + 1, ts => do
    let (x, ts) ← name ts
    if atMark sep ts then
      let (xs, ts) ← separated sep fuel (ts.drop 1)
      return (x :: xs, ts)
    else return ([x], ts)

/-- Names separated by a mark. -/
def names (sep : Char) (ts : List Token) : Option (List String × List Token) :=
  separated sep (ts.length + 1) (skipMark sep ts)

/-- A string, if one comes next. -/
def description (ts : List Token) : Option String × List Token :=
  match ts with
  | .string s :: rest => (some s, rest)
  | ts => (none, ts)

/-- A type with the exclamation mark that may follow it. -/
def markNonNull (t : TypeExpr) (ts : List Token) : TypeExpr × List Token :=
  if atMark '!' ts then (.nonNull t, ts.drop 1) else (t, ts)

/-- A type within a nesting bound. -/
def typeExprIn : Nat → Reader TypeExpr
  | 0, _ => none
  | _ + 1, .name s :: ts => some (markNonNull (.named s) ts)
  | fuel + 1, .mark '[' :: ts => do
    let (t, ts) ← typeExprIn fuel ts
    let (_, ts) ← mark ']' ts
    return markNonNull (.list t) ts
  | _, _ => none

/-- A type. -/
def typeExpr (ts : List Token) : Option (TypeExpr × List Token) := typeExprIn (ts.length + 1) ts

/-- A name and a value after a colon. -/
def memberOf (value : Reader Value) (ts : List Token) : Option ((String × Value) × List Token) := do
  let (k, ts) ← name ts
  let (_, ts) ← mark ':' ts
  let (v, ts) ← value ts
  return ((k, v), ts)

/-- The value of a name. -/
def wordValue : String → Value
  | "true" => .boolean true
  | "false" => .boolean false
  | "null" => .null
  | s => .enum s

/-- A value within a nesting bound; variables stand only where they are allowed. -/
def valueIn (withVariables : Bool) : Nat → Reader Value
  | 0, _ => none
  | fuel + 1, ts =>
    match ts with
    | .name s :: rest => some (wordValue s, rest)
    | .int i :: rest => some (.int i, rest)
    | .float x :: rest => some (.float x, rest)
    | .string s :: rest => some (.string s, rest)
    | .mark '$' :: rest => if withVariables then (name rest).map fun (s, rest) => (.variable s, rest) else none
    | .mark '[' :: _ => (bracketed '[' ']' (valueIn withVariables fuel) ts).map fun (vs, rest) => (.list vs, rest)
    | .mark '\x7b' :: _ =>
      (bracketed '\x7b' '\x7d' (memberOf (valueIn withVariables fuel)) ts).map fun (ms, rest) =>
        (.object (SortedMap.sortEntries ms), rest)
    | _ => none

/-- A value. -/
def value (withVariables : Bool) (ts : List Token) : Option (Value × List Token) := valueIn withVariables (ts.length + 1) ts

/-- Directives, of which only the number matters. -/
def directivesIn : Nat → Reader Nat
  | 0, _ => none
  | fuel + 1, ts =>
    if atMark '@' ts then do
      let (_, ts) ← name (ts.drop 1)
      let (_, ts) ← block? '(' ')' (memberOf (value true)) ts
      let (n, ts) ← directivesIn fuel ts
      return (n + 1, ts)
    else some (0, ts)

/-- Directives, of which only the number matters. -/
def directives (ts : List Token) : Option (Nat × List Token) := directivesIn (ts.length + 1) ts

/-- An argument or input field. -/
def inputValue (ts : List Token) : Option (InputValue × List Token) := do
  let (description, ts) := description ts
  let (name, ts) ← name ts
  let (_, ts) ← mark ':' ts
  let (type, ts) ← typeExpr ts
  let (default, ts) ←
    if atMark '=' ts then (value false (ts.drop 1)).map fun (v, ts) => (some v, ts) else some (none, ts)
  let (_, ts) ← directives ts
  return ({ description, name, type, default }, ts)

/-- The arguments of a field or directive. -/
def arguments (ts : List Token) : Option (List InputValue × List Token) :=
  (block? '(' ')' inputValue ts).map fun (args, ts) => (args.getD [], ts)

/-- A field. -/
def field (ts : List Token) : Option (Field × List Token) := do
  let (description, ts) := description ts
  let (name, ts) ← name ts
  let (args, ts) ← arguments ts
  let (_, ts) ← mark ':' ts
  let (type, ts) ← typeExpr ts
  let (_, ts) ← directives ts
  return ({ description, name, args, type }, ts)

/-- The fields of an object or interface. -/
def fields (ts : List Token) : Option (List Field × List Token) :=
  (block? '\x7b' '\x7d' field ts).map fun (fs, ts) => (fs.getD [], ts)

/-- A value of an enumeration. -/
def enumValue (ts : List Token) : Option (EnumValue × List Token) := do
  let (description, ts) := description ts
  let (name, ts) ← name ts
  let (_, ts) ← directives ts
  return ({ description, name }, ts)

/-- The interfaces that a type implements. -/
def interfaces (ts : List Token) : Option (List String × List Token) :=
  if atWord "implements" ts then names '&' (ts.drop 1) else some ([], ts)

/-- What is written of a type after its keyword: name, body, and whether there is anything besides the name. -/
structure Spelled where
  name : String
  body : Body
  adds : Bool

/-- The rest of a type definition or extension after its keyword. -/
def spelled (keyword : String) (ts : List Token) : Option (Spelled × List Token) :=
  match keyword with
  | "scalar" => do
    let (name, ts) ← name ts
    let (n, ts) ← directives ts
    return ({ name, body := .scalar, adds := n > 0 }, ts)
  | "type" => do
    let (name, ts) ← name ts
    let (is, ts) ← interfaces ts
    let (n, ts) ← directives ts
    let (fs, ts) ← fields ts
    return ({ name, body := .object fs, adds := !is.isEmpty || n > 0 || !fs.isEmpty }, ts)
  | "interface" => do
    let (name, ts) ← name ts
    let (_, ts) ← interfaces ts
    let (n, ts) ← directives ts
    let (fs, ts) ← fields ts
    return ({ name, body := .interface fs, adds := n > 0 || !fs.isEmpty }, ts)
  | "union" => do
    let (name, ts) ← name ts
    let (n, ts) ← directives ts
    if atMark '=' ts then
      let (_, ts) ← names '|' (ts.drop 1)
      return ({ name, body := .union, adds := true }, ts)
    else return ({ name, body := .union, adds := n > 0 }, ts)
  | "enum" => do
    let (name, ts) ← name ts
    let (n, ts) ← directives ts
    let (vs, ts) ← block? '\x7b' '\x7d' enumValue ts
    return ({ name, body := .enum (vs.getD []), adds := n > 0 || vs.isSome }, ts)
  | "input" => do
    let (name, ts) ← name ts
    let (n, ts) ← directives ts
    let (fs, ts) ← block? '\x7b' '\x7d' inputValue ts
    return ({ name, body := .input (fs.getD []), adds := n > 0 || fs.isSome }, ts)
  | _ => none

/-- The places where a directive may stand. -/
def directiveLocations : List String :=
  ["QUERY", "MUTATION", "SUBSCRIPTION", "FIELD", "FRAGMENT_DEFINITION", "FRAGMENT_SPREAD", "INLINE_FRAGMENT",
    "SCHEMA", "SCALAR", "OBJECT", "FIELD_DEFINITION", "ARGUMENT_DEFINITION", "INTERFACE", "UNION", "ENUM",
    "ENUM_VALUE", "INPUT_OBJECT", "INPUT_FIELD_DEFINITION", "VARIABLE_DEFINITION"]

/-- The places of a directive definition, of which there may be none. -/
def places (ts : List Token) : Option (List String × List Token) :=
  match ts with
  | .name _ :: _ => names '|' ts
  | .mark '|' :: _ => names '|' ts
  | _ => some ([], ts)

/-- The rest of a directive definition after its keyword. -/
def directive (ts : List Token) : Option (Unit × List Token) := do
  let (_, ts) ← mark '@' ts
  let (_, ts) ← name ts
  let (_, ts) ← arguments ts
  let ts := if atWord "repeatable" ts then ts.drop 1 else ts
  let (_, ts) ← word "on" ts
  let (found, ts) ← places ts
  if found.all directiveLocations.contains then return ((), ts) else none

/-- A root of a schema definition. -/
def root (ts : List Token) : Option ((String × String) × List Token) := do
  let (operation, ts) ← name ts
  if operation = "query" ∨ operation = "mutation" ∨ operation = "subscription" then
    let (_, ts) ← mark ':' ts
    let (type, ts) ← name ts
    return ((operation, type), ts)
  else none

/-- The roots of a list, in which no operation stands twice. -/
def rootsOf (rs : List (String × String)) : Option Roots :=
  if (rs.map Prod.fst).Nodup then
    some { query := rs.lookup "query", mutation := rs.lookup "mutation", subscription := rs.lookup "subscription" }
  else none

/-- A definition: of a schema, an extension, or of a type or directive with an optional description. -/
def definition (ts : List Token) : Option (Definition × List Token) :=
  match ts with
  | .name "schema" :: ts => do
    let (_, ts) ← directives ts
    let (rs, ts) ← bracketed '\x7b' '\x7d' root ts
    return (.schema (← rootsOf rs), ts)
  | .name "extend" :: ts => do
    let (keyword, ts) ← name ts
    let (s, ts) ← spelled keyword ts
    if s.adds then return (.extension, ts) else none
  | ts => do
    let (description, ts) := description ts
    let (keyword, ts) ← name ts
    if keyword = "directive" then
      let (_, ts) ← directive ts
      return (.directive, ts)
    else
      let (s, ts) ← spelled keyword ts
      return (.type { description, name := s.name, body := s.body }, ts)

/-- All definitions of a document. -/
def definitions : Nat → List Token → Option Document
  | _, [] => some []
  | 0, _ => none
  | fuel + 1, ts => do
    let (d, ts) ← definition ts
    return d :: (← definitions fuel ts)

end Grammar

/-- The structure of a document; none if it is not one. An empty document is not one. -/
def Document.read (text : String) : Option Document := do
  let ts ← Token.scan text.toList
  let d ← Grammar.definitions ts.length ts
  if d.isEmpty then none else some d

end SdkLoom.Sdl
