/-!
# Go identifiers and string literals

Names of a schema as Go identifiers, and texts as interpreted string literals.
-/

namespace SdkLoom.Go

/-- The exported identifier of a name: its first letter is made upper case, and an `X` precedes what is no letter. -/
def exported (name : String) : String :=
  match name.toList with
  | [] => ""
  | c :: rest => if c.isAlpha then String.ofList (c.toUpper :: rest) else "X" ++ name

/-- The keywords of the language. -/
def keywords : List String :=
  ["break", "case", "chan", "const", "continue", "default", "defer", "else", "fallthrough", "for", "func", "go", "goto",
    "if", "import", "interface", "map", "package", "range", "return", "select", "struct", "switch", "type", "var"]

/-- The names that a method declares by itself. -/
def methodNames : List String := ["ctx", "err", "meta", "request", "response", "s", "selections"]

/-- The parameter of an argument: an underscore is added to what is a keyword or taken by the method. -/
def param (name : String) : String :=
  if (keywords ++ methodNames).contains name then name ++ "_" else name

/-- A character as it is written in a string literal. -/
def escapeChar : Char → List Char
  | '"' => ['\\', '"']
  | '\\' => ['\\', '\\']
  | '\n' => ['\\', 'n']
  | c => [c]

/-- A text as a string literal. -/
def stringLiteral (s : String) : String := String.ofList ('"' :: s.toList.flatMap escapeChar ++ ['"'])

/-- The tag that gives the JSON name of a field. -/
def jsonTag (name : String) : String := "`json:\"" ++ name ++ "\"`"

/-- The variable of an operation's query. -/
def queryVariable (name : String) : String := "Build" ++ exported name

end SdkLoom.Go
