import SdkLoom.Text.Blank
import SdkLoom.Text.Search

/-!
# Header fields of HTTP

Which names and values are legal, and reading of a field from one line.
-/

namespace SdkLoom.Http

/-- A header field. -/
structure Header where
  name : String
  value : String
  deriving DecidableEq

/-- The characters of field names. -/
def isNameChar (c : Char) : Bool :=
  c.isAlphanum || ['!', '#', '$', '%', '&', '\x27', '*', '+', '-', '.', '^', '_', '\x60', '|', '~'].contains c

/-- Whether a text is the name of a field. -/
def isHeaderName (s : String) : Bool := s != "" && s.toList.all isNameChar

/-- Whether a text is the value of a field: it holds no control characters but tabs. -/
def isHeaderValue (s : String) : Bool :=
  s.toList.all fun c => c == '\t' || (0x20 ≤ c.toNat && c.toNat != 0x7f)

/-- A field written with a colon between name and value; blanks around both are dropped. -/
def Header.read? (s : String) : Option Header := do
  let (name, value) ← Text.splitOnce s ':'
  let name := Text.trim name
  let value := Text.trim value
  if isHeaderName name && isHeaderValue value then some ⟨name, value⟩ else none

end SdkLoom.Http
