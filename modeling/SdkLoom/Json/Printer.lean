import SdkLoom.Json.Number

/-!
# Writing JSON

The compact text of a value, without blanks, and the pretty text, with two blanks a level.
-/

namespace SdkLoom.Json

/-- A lower case hexadecimal digit. -/
def hexChar (n : Nat) : Char := (Nat.toDigits 16 n).headD '0'

/-- A character as it is written in a string. -/
def escapeChar (c : Char) : List Char :=
  match c with
  | '"' => ['\\', '"']
  | '\\' => ['\\', '\\']
  | '\x08' => ['\\', 'b']
  | '\x0c' => ['\\', 'f']
  | '\n' => ['\\', 'n']
  | '\r' => ['\\', 'r']
  | '\t' => ['\\', 't']
  | c =>
    if c.toNat < 0x20 then ['\\', 'u', '0', '0', hexChar (c.toNat / 16), hexChar (c.toNat % 16)] else [c]

/-- A string in quotes. -/
def quote (s : String) : String := String.ofList ('"' :: s.toList.flatMap escapeChar ++ ['"'])

mutual

/-- The text of a value without blanks. -/
def compact : Json → String
  | .null => "null"
  | .bool b => if b then "true" else "false"
  | .num n => n.text
  | .str s => quote s
  | .arr items => "[" ++ ",".intercalate (compactItems items) ++ "]"
  | .obj members => "\x7b" ++ ",".intercalate (compactMembers members) ++ "\x7d"

/-- The compact texts of items. -/
def compactItems : List Json → List String
  | [] => []
  | t :: rest => compact t :: compactItems rest

/-- The compact texts of members. -/
def compactMembers : List (String × Json) → List String
  | [] => []
  | (k, t) :: rest => (quote k ++ ":" ++ compact t) :: compactMembers rest

end

/-- A line break and the indentation of a level. -/
def newline (level : Nat) : String := "\n" ++ String.ofList (List.replicate (2 * level) ' ')

/-- Brackets around items, each on a line of its own; nothing is between them if there is none. -/
def bracket (opening closing : String) (level : Nat) (items : List String) : String :=
  if items.isEmpty then opening ++ closing
  else
    opening ++ newline (level + 1) ++ ("," ++ newline (level + 1)).intercalate items ++ newline level ++ closing

mutual

/-- The text of a value with two blanks a level. -/
def prettyAt (level : Nat) : Json → String
  | .null => "null"
  | .bool b => if b then "true" else "false"
  | .num n => n.text
  | .str s => quote s
  | .arr items => bracket "[" "]" level (prettyItems (level + 1) items)
  | .obj members => bracket "\x7b" "\x7d" level (prettyMembers (level + 1) members)

/-- The pretty texts of items. -/
def prettyItems (level : Nat) : List Json → List String
  | [] => []
  | t :: rest => prettyAt level t :: prettyItems level rest

/-- The pretty texts of members. -/
def prettyMembers (level : Nat) : List (String × Json) → List String
  | [] => []
  | (k, t) :: rest => (quote k ++ ": " ++ prettyAt level t) :: prettyMembers level rest

end

/-- The text of a value with two blanks a level. -/
def pretty (j : Json) : String := prettyAt 0 j

end SdkLoom.Json
