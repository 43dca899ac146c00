import SdkLoom.Decimal.Literal
import SdkLoom.Decimal.Power
import SdkLoom.Json.Number

/-!
# Values in templates

How templates show, test, compare and look into JSON values.
-/

namespace SdkLoom.Template

mutual

/-- The text of a value. -/
def valueText : Json → String
  | .null => ""
  | .bool b => if b then "true" else "false"
  | .num n => n.text
  | .str s => s
  | .arr items => "[" ++ String.intercalate ", " (valueTexts items) ++ "]"
  | .obj _ => "[object]"

/-- The texts of the items of a list. -/
def valueTexts : List Json → List String
  | [] => []
  | v :: rest => valueText v :: valueTexts rest

end

/-- Whether a value counts as true. Zero does only if it is asked for, and so do numbers too small to be normal. -/
def truthy (zeroToo : Bool) : Json → Bool
  | .null => false
  | .bool b => b
  | .num n => zeroToo || n.toBinary64.isNormal
  | .str s => !s.isEmpty
  | .arr items => !items.isEmpty
  | .obj members => !members.isEmpty

/-- The number of a value that is a whole number of 64 bits with a sign. -/
def int64? : Json → Option Int
  | .num (.int i) => if fitsSigned 64 i then some i else none
  | _ => none

/-- The number of items, members or bytes of a value. -/
def sizeOf : Json → Nat
  | .arr items => items.length
  | .obj members => members.length
  | .str s => s.utf8ByteSize
  | _ => 0

/-- The index that a name spells. -/
def index? (name : String) : Option Nat :=
  let ds := match name.toList with
    | '+' :: rest => rest
    | cs => cs
  if ds.isEmpty || !ds.all Char.isDigit then none
  else
    let n := Binary64.digitsValue ds
    if n < pow2 64 then some n else none

/-- The value under a name within a value, if there is one; a list has no other names than indices. -/
def step? (name : String) : Json → Except Unit (Option Json)
  | .arr items =>
    match index? name with
    | some i => .ok items[i]?
    | none => .error ()
  | .obj members => .ok (SortedMap.findEntry name members)
  | _ => .ok none

/-- The value at the end of a path of names, if there is one. -/
def navigate (v : Json) : List String → Except Unit (Option Json)
  | [] => .ok (some v)
  | name :: rest => do
    match ← step? name v with
    | some inner => navigate inner rest
    | none => .ok none

end SdkLoom.Template
