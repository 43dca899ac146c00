import SdkLoom.Sdl.Document
import SdkLoom.Text.Blank
import SdkLoom.Text.Lines

/-!
# Strings and values as text

The texts that quoted strings and block strings stand for, and the printed form of a value.
-/

namespace SdkLoom.Sdl

/-! ## Reading -/

/-- The value of a hexadecimal digit of either case. -/
def hexDigit? (c : Char) : Option Nat :=
  if '0' ≤ c ∧ c ≤ '9' then some (c.toNat - '0'.toNat)
  else if 'a' ≤ c ∧ c ≤ 'f' then some (c.toNat - 'a'.toNat + 10)
  else if 'A' ≤ c ∧ c ≤ 'F' then some (c.toNat - 'A'.toNat + 10)
  else none

/-- A hexadecimal number, which may have a plus sign before its digits. -/
def readHex (cs : List Char) : Option Nat :=
  let ds := match cs with
    | '+' :: rest => rest
    | cs => cs
  if ds.isEmpty then none
  else ds.foldlM (fun n c => (hexDigit? c).map fun d => n * 16 + d) 0

/-- The character with a number, if it is one. -/
def scalarValue? (n : Nat) : Option Char :=
  if n < 0xD800 ∨ (0xDFFF < n ∧ n < 0x110000) then some (Char.ofNat n) else none

/-- The text of a quoted string, quotes left out. The escape `\b` stands for the character with number 16. -/
def unquote : List Char → Option (List Char)
  | [] => some []
  | '\\' :: 'u' :: a :: b :: c :: d :: rest => do
    let ch ← (readHex [a, b, c, d]).bind scalarValue?
    return ch :: (← unquote rest)
  | '\\' :: c :: rest => do
    let ch ← match c with
      | '"' | '\\' | '/' => some c
      | 'b' => some (Char.ofNat 16)
      | 'f' => some '\x0c'
      | 'n' => some '\n'
      | 'r' => some '\r'
      | 't' => some '\t'
      | _ => none
    return ch :: (← unquote rest)
  | '\\' :: [] => none
  | c :: rest => do return c :: (← unquote rest)

/-- The number of bytes that characters take. -/
def byteLength : List Char → Nat
  | [] => 0
  | c :: rest => c.utf8Size + byteLength rest

/-- The number of bytes of leading blanks. -/
def indentOf (line : List Char) : Nat := byteLength (line.takeWhile Text.isBlank)

/-- Drops characters worth a number of bytes. -/
def dropBytes : Nat → List Char → List Char
  | 0, cs => cs
  | _ + 1, [] => []
  | n + 1, c :: rest => dropBytes (n + 1 - c.utf8Size) rest
termination_by _ cs => cs.length

/-- Whether a line holds blanks only. -/
def isBlankLine (line : List Char) : Bool := line.all Text.isBlank

/-- The least indentation of the lines that are not blank. -/
def commonIndent (lines : List (List Char)) : Option Nat :=
  ((lines.filter fun l => !isBlankLine l).map indentOf).min?

/-- A line of a block string with its escaped triple quotes. -/
def unescapeQuotes (line : List Char) : List Char :=
  Text.replaceFrom ['\\', '"', '"', '"'] ['"', '"', '"'] 0 line

/-- The text of a block string, quotes left out: the indentation that all lines after the first share is dropped, and so
are blank lines at both ends. A line that is shorter than the indentation stays as it is. -/
def blockText (cs : List Char) : List Char :=
  match Text.lines cs with
  | [] => []
  | first :: others =>
    let indent := commonIndent others
    let cut := others.map fun l =>
      match indent with
      | some n => if byteLength l ≥ n then dropBytes n l else l
      | none => l
    let kept := ((first :: cut).dropWhile isBlankLine).reverse.dropWhile isBlankLine
    List.intercalate ['\n'] (kept.reverse.map unescapeQuotes)

/-! ## Printing -/

/-- Whether a character is printed as it is, in a string of one line. -/
def isPrintable (c : Char) : Bool := 0x20 ≤ c.toNat && c.toNat ≤ 0xFFFF

/-- A number with at least four digits. -/
def fourDigits (n : Nat) : List Char :=
  let ds := Nat.toDigits 10 n
  List.replicate (4 - ds.length) '0' ++ ds

/-- A character of a string of one line; a character that is not printable is written by its decimal number. -/
def quoteChar : Char → List Char
  | '\r' => ['\\', 'r']
  | '\n' => ['\\', 'n']
  | '\t' => ['\\', 't']
  | '"' => ['\\', '"']
  | '\\' => ['\\', '\\']
  | c => if isPrintable c then [c] else '\\' :: 'u' :: fourDigits c.toNat

/-- Whether a string is printed on several lines. -/
def printsAsBlock (cs : List Char) : Bool :=
  cs.contains '\n' && cs.all fun c => c == '\n' || c == '\r' || c == '\t' || isPrintable c

/-- A line of a block string, which is set in by two spaces unless it is blank. -/
def blockLine (line : List Char) : List Char :=
  if isBlankLine line then ['\n']
  else [' ', ' '] ++ Text.replaceFrom ['"', '"', '"'] ['\\', '"', '"', '"'] 0 line ++ ['\n']

/-- The printed form of a string. -/
def quote (s : String) : String :=
  let cs := s.toList
  let triple := ['"', '"', '"']
  if printsAsBlock cs then
    String.ofList (triple ++ '\n' :: (Text.lines cs).flatMap blockLine ++ triple)
  else String.ofList ('"' :: cs.flatMap quoteChar ++ ['"'])

/-- Numbers are written with all their digits and no exponent. -/
def floatLayout : Decimal.Layout := { wholeTail := "", positionalPoints := none }

mutual

/-- The printed form of a value. -/
def Value.text : Value → String
  | .variable name => "$" ++ name
  | .int i => toString i
  | .float x => floatLayout.text x
  | .string s => quote s
  | .boolean b => if b then "true" else "false"
  | .null => "null"
  | .enum name => name
  | .list items => "[" ++ ", ".intercalate (Value.texts items) ++ "]"
  | .object members => "\x7b" ++ ", ".intercalate (Value.memberTexts members) ++ "\x7d"

/-- The printed forms of the items of a list. -/
def Value.texts : List Value → List String
  | [] => []
  | v :: rest => v.text :: Value.texts rest

/-- The printed forms of the members of an object. -/
def Value.memberTexts : List (String × Value) → List String
  | [] => []
  | (k, v) :: rest => (k ++ ": " ++ v.text) :: Value.memberTexts rest

end

end SdkLoom.Sdl
