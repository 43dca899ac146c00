import SdkLoom.Schema.Index
import SdkLoom.Text.Search

/-!
# Models of schemas

The flat model of a schema: a descriptor for every named type, and the names sorted into models and inputs. The name alone
decides: what ends with `Input` is an input, and everything else is a model unless it is ignored or a meta type.
-/

namespace SdkLoom

/-- The names that never count as models. -/
abbrev IgnoreList := NameSet

namespace IgnoreList

/-- The names of well-known scalars. -/
def wellKnown : List String :=
  ["BigInt", "Boolean", "Int", "String", "Float", "ID", "Date", "Time", "DateTime", "Timestamp", "UtcOffset",
    "Duration", "ISO8601Duration", "LocalDate", "LocalTime", "LocalEndTime", "EmailAddress", "NegativeFloat",
    "NegativeInt", "NonEmptyString", "NonNegativeFloat", "NonNegativeInt", "NonPositiveFloat", "NonPositiveInt",
    "PhoneNumber", "PositiveFloat", "PositiveInt", "PostalCode", "UnsignedFloat", "UnsignedInt", "URL", "Byte", "Long",
    "SafeInt", "UUID", "GUID", "Hexadecimal", "HexColorCode", "HSL", "HSLA", "IPv4", "IPv6", "ISBN", "JWT", "Latitude",
    "Longitude", "MAC", "Port", "RGB", "RGBA", "USCurrency", "Currency", "JSON", "JSONObject", "IBAN", "ObjectID",
    "Void", "DID", "TimeZone", "CountryCode", "Locale", "RoutingNumber", "AccountNumber", "Cuid", "Upload"]

/-- The list of well-known scalars. -/
def builtin : IgnoreList := NameSet.ofNames wellKnown

end IgnoreList

/-- A flat view of a whole schema. -/
structure Model where
  types : SortedMap String Descriptor
  models : NameSet
  inputs : NameSet
  ignored : IgnoreList

namespace Model

/-- The ending of the names of inputs. -/
def inputEnding : String := "Input"

/-- Whether a name is that of an input: it ends with `Input` and is longer. -/
def isInputName (name : String) : Bool :=
  name.length > inputEnding.length && Text.endsWith name inputEnding

/-- Whether a name is that of a meta type. -/
def isMetaName (name : String) : Bool := Text.startsWith name "__"

/-- Whether a name is that of a model. -/
def isModelName (ignored : IgnoreList) (name : String) : Bool :=
  !isInputName name && !ignored.contains name && !isMetaName name

/-- The descriptor of a type. -/
def get? (m : Model) (name : String) : Option Descriptor := m.types.get? name

/-- The types of some names, in name order. -/
def select (m : Model) (names : NameSet) : List (String × Descriptor) :=
  names.keys.filterMap fun n => (m.types.get? n).map fun d => (n, d)

/-- The model of the definitions of an index. -/
def ofIndex (idx : Index) (ignored : IgnoreList) : Model :=
  { types := idx.mapWithKey fun name t => (idx.describeDef t).withName name
    models := (idx.filter fun name _ => isModelName ignored name).map fun _ => ()
    inputs := (idx.filter fun name _ => isInputName name).map fun _ => ()
    ignored }

/-- The remarks on the definitions of an index. -/
def notes (idx : Index) : List Diagnostic := idx.values.flatMap idx.defNotes

end Model

end SdkLoom
