/-!
# Spellings of scalars

How a target language spells the scalar types.
-/

namespace SdkLoom

/-- The names of the scalar types in a language. -/
structure Primitives where
  int : String
  float : String
  text : String
  boolean : String
  unknown : String
  deriving DecidableEq, Repr, Inhabited

namespace Primitives

/-- The spelling of a scalar; every name that is not in the table is unknown. -/
def get (p : Primitives) : String → String
  | "Int" => p.int
  | "BigInt" => p.int
  | "Float" => p.float
  | "String" => p.text
  | "ID" => p.text
  | "Boolean" => p.boolean
  | _ => p.unknown

end Primitives

end SdkLoom
