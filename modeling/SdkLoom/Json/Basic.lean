import SdkLoom.Decimal.Binary64
import SdkLoom.Map.Sorted

/-!
# JSON trees

A `Json.Tree ε` is a JSON text's structure: members in the order of the text, repetitions included. A leaf `fault e` marks
a place that the grammar admits though no value stands for it; a `Json` has none, since its faults are of type `Empty`.
-/

namespace SdkLoom

namespace Json

/-- A number: an integer of 64 bits, signed or not, or a double precision number. -/
inductive Number where
  | int (value : Int)
  | float (value : Binary64)
  deriving DecidableEq, Repr, Inhabited

/-- A number as a double precision number. -/
def Number.toBinary64 : Number → Binary64
  | .int i => .ofInt i
  | .float x => x

/-- A JSON tree with faults of type `ε`. -/
inductive Tree (ε : Type) where
  | fault (cause : ε)
  | null
  | bool (value : Bool)
  | num (value : Number)
  | str (value : String)
  | arr (items : List (Tree ε))
  | obj (members : List (String × Tree ε))
  deriving Inhabited

end Json

/-- A JSON value. -/
abbrev Json := Json.Tree Empty

namespace Json

/-- What keeps a place in a JSON text from having a value: half of a surrogate pair, a number beyond the range of double
precision, or nesting beyond the limit. -/
inductive Fault where
  | loneSurrogate
  | outOfRange
  | tooDeep
  deriving DecidableEq, Repr

/-- The structure of a JSON text. -/
abbrev Document := Tree Fault

/-- An integer value. -/
def ofInt {ε : Type} (i : Int) : Tree ε := .num (.int i)

/-- A number value of a natural number. -/
def ofNat {ε : Type} (n : Nat) : Tree ε := .num (.int n)

/-- A list of strings. -/
def ofStrings {ε : Type} (ss : List String) : Tree ε := .arr (ss.map .str)

/-- A string, or null. -/
def ofString? {ε : Type} : Option String → Tree ε
  | none => .null
  | some s => .str s

namespace Tree

variable {ε : Type}

mutual

/-- A tree without faults as it stands. -/
def faultless? : Tree ε → Option Json
  | .fault _ => none
  | .null => some .null
  | .bool b => some (.bool b)
  | .num n => some (.num n)
  | .str s => some (.str s)
  | .arr items => (faultlessItems? items).map .arr
  | .obj members => (faultlessMembers? members).map .obj

/-- Items without faults. -/
def faultlessItems? : List (Tree ε) → Option (List Json)
  | [] => some []
  | t :: rest =>
    match t.faultless?, faultlessItems? rest with
    | some v, some vs => some (v :: vs)
    | _, _ => none

/-- Members without faults. -/
def faultlessMembers? : List (String × Tree ε) → Option (List (String × Json))
  | [] => some []
  | (k, t) :: rest =>
    match t.faultless?, faultlessMembers? rest with
    | some v, some vs => some ((k, v) :: vs)
    | _, _ => none

end

/-- The members of an object in key order, the last of a repeated key. -/
def sortMembers (ms : List (String × Json)) : List (String × Json) := SortedMap.sortEntries ms

mutual

/-- The value that a tree without faults stands for: objects sorted by key, the last of repeated members kept. -/
def value? : Tree ε → Option Json
  | .fault _ => none
  | .null => some .null
  | .bool b => some (.bool b)
  | .num n => some (.num n)
  | .str s => some (.str s)
  | .arr items => (values? items).map .arr
  | .obj members => (memberValues? members).map fun ms => .obj (sortMembers ms)

/-- The values of the items of a list. -/
def values? : List (Tree ε) → Option (List Json)
  | [] => some []
  | t :: rest =>
    match t.value?, values? rest with
    | some v, some vs => some (v :: vs)
    | _, _ => none

/-- The values of members, in their order. -/
def memberValues? : List (String × Tree ε) → Option (List (String × Json))
  | [] => some []
  | (k, t) :: rest =>
    match t.value?, memberValues? rest with
    | some v, some vs => some ((k, v) :: vs)
    | _, _ => none

end

end Tree

mutual

/-- Whether two values are equal; numbers of different kinds are not, and a zero has no sign. -/
def same : Json → Json → Bool
  | .null, .null => true
  | .bool a, .bool b => a == b
  | .num (.int i), .num (.int j) => i == j
  | .num (.float x), .num (.float y) => x.order? y == some .eq
  | .str s, .str t => s == t
  | .arr xs, .arr ys => sameItems xs ys
  | .obj xs, .obj ys => sameMembers xs ys
  | _, _ => false

/-- Whether two lists of values are equal item by item. -/
def sameItems : List Json → List Json → Bool
  | [], [] => true
  | x :: xs, y :: ys => same x y && sameItems xs ys
  | _, _ => false

/-- Whether two lists of members are equal entry by entry. -/
def sameMembers : List (String × Json) → List (String × Json) → Bool
  | [], [] => true
  | (k, x) :: xs, (j, y) :: ys => k == j && same x y && sameMembers xs ys
  | _, _ => false

end

mutual

/-- A value with the members of its objects in key order, the last of repeated members kept. -/
def sorted : Json → Json
  | .fault cause => nomatch cause
  | .null => .null
  | .bool b => .bool b
  | .num n => .num n
  | .str s => .str s
  | .arr items => .arr (sortedItems items)
  | .obj members => .obj (Tree.sortMembers (sortedMembers members))

/-- The items of a list, each sorted. -/
def sortedItems : List Json → List Json
  | [] => []
  | v :: rest => sorted v :: sortedItems rest

/-- The members of an object, the value of each sorted. -/
def sortedMembers : List (String × Json) → List (String × Json)
  | [] => []
  | (k, v) :: rest => (k, sorted v) :: sortedMembers rest

end

/-- An object whose members are the entries of a map. -/
def ofMap (m : SortedMap String Json) : Json := .obj m.toList

/-- The value of a member of an object. -/
def member? (j : Json) (key : String) : Option Json :=
  match j with
  | .obj members => SortedMap.findEntry key members
  | _ => none

end Json

end SdkLoom
