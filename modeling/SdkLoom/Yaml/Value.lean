import SdkLoom.Decimal.Literal
import SdkLoom.Decimal.Power
import SdkLoom.Json.Basic
import SdkLoom.Text.Search
import SdkLoom.Yaml.Flow

/-!
# Values of YAML scalars

What a plain scalar means (null, truth values, integers in four bases, numbers, else text), and what a tag makes of it.
-/

namespace SdkLoom.Yaml

/-! ## Plain scalars -/

/-- The spellings of null. -/
def isNullWord (s : String) : Bool := ["null", "Null", "NULL", "~"].contains s

/-- The spellings of truth values. -/
def boolWord? (s : String) : Option Bool :=
  if ["true", "True", "TRUE"].contains s then some true
  else if ["false", "False", "FALSE"].contains s then some false
  else none

/-- The value of digits of a base up to sixteen, of which there has to be one. -/
def natOf? (base : Nat) (cs : List Char) : Option Nat :=
  if cs.isEmpty then none
  else cs.foldlM (fun n c => (hexDigit? c).bind fun d => if d < base then some (n * base + d) else none) 0

/-- Digits after a leading zero, which make a text and no number. -/
def isZeroLed (s : String) : Bool :=
  let digits := match s.toList with
    | '-' :: rest => rest
    | '+' :: rest => rest
    | cs => cs
  digits.length > 1 && digits.head? == some '0' && digits.all Char.isDigit

/-- The magnitude of an integer in the base that its first two characters name. -/
def basedNat? : List Char → Option Nat
  | '0' :: 'x' :: rest => natOf? 16 rest
  | '0' :: 'o' :: rest => natOf? 8 rest
  | '0' :: 'b' :: rest => natOf? 2 rest
  | _ => none

/-- The integer of a plain scalar, of any size. -/
def intWord? (s : String) : Option Int :=
  let (negative, cs) := Binary64.takeSign s.toList
  let magnitude := (basedNat? cs).or (if isZeroLed s then none else natOf? 10 cs)
  magnitude.map fun n => if negative then -(n : Int) else n

/-- Whether an integer is beyond 128 bits, and so read as a text or a number. -/
def isHuge (i : Int) : Bool := !(fitsSigned 128 i || fitsUnsigned 128 i)

/-- Whether an integer is one of 64 bits, signed or not. -/
def isWord (i : Int) : Bool := fitsSigned 64 i || fitsUnsigned 64 i

/-- The double precision number of a plain scalar; only the spellings with a point are infinite or no number. -/
def floatWord? (s : String) : Option Binary64 :=
  let unsigned := match s.toList with
    | '+' :: rest => String.ofList rest
    | _ => s
  if Text.startsWith s "+" && (Text.startsWith unsigned "+" || Text.startsWith unsigned "-") then none
  else if [".inf", ".Inf", ".INF"].contains unsigned then some (.infinite false)
  else if ["-.inf", "-.Inf", "-.INF"].contains s then some (.infinite true)
  else if [".nan", ".NaN", ".NAN"].contains s then some .nan
  else (Binary64.read? unsigned).filter Binary64.isFinite

/-- A number as a JSON value; what is not finite is null. -/
def ofFloat (x : Binary64) : Json := if x.isFinite then .num (.float x) else .null

/-- An integer as a JSON value: it has to fit into 64 bits. -/
def ofWord? (i : Int) : Option Json := if isWord i then some (Json.ofInt i) else none

/-- The value of a plain scalar without a tag. -/
def plainValue? (s : String) : Option Json :=
  if s == "" || isNullWord s then some .null
  else match boolWord? s with
    | some b => some (.bool b)
    | none =>
      match (intWord? s).filter (!isHuge ·) with
      | some i => ofWord? i
      | none =>
        match if isZeroLed s then none else floatWord? s with
        | some x => some (ofFloat x)
        | none => some (.str s)

/-! ## Tags -/

/-- The start of the tags that YAML itself defines. -/
def coreTag : String := "tag:yaml.org,2002:"

/-- Whether a tag belongs to an application, which gives its node no value. -/
def isLocalTag (tag : Option String) : Bool := tag.any (Text.startsWith · "!")

/-- The value of a scalar. -/
def scalarValue? (tag : Option String) (plain : Bool) (s : String) : Option Json :=
  match tag with
  | none => if plain then plainValue? s else some (.str s)
  | some tag =>
    if isLocalTag tag then none
    else if tag == coreTag ++ "bool" then (boolWord? s).map .bool
    else if tag == coreTag ++ "int" then ((intWord? s).filter (!isHuge ·)).bind ofWord?
    else if tag == coreTag ++ "float" then (floatWord? s).map ofFloat
    else if tag == coreTag ++ "null" then if isNullWord s then some .null else none
    else some (.str s)

end SdkLoom.Yaml
