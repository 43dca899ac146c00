/-!
# Blank characters

The characters with the Unicode property `White_Space`, and texts without the blanks at their ends.
-/

namespace SdkLoom.Text

/-- The characters with the property `White_Space`. -/
def isBlank (c : Char) : Bool :=
  let n := c.toNat
  (9 ≤ n && n ≤ 13) || n == 0x20 || n == 0x85 || n == 0xA0 || n == 0x1680 || (0x2000 ≤ n && n ≤ 0x200A)
    || n == 0x2028 || n == 0x2029 || n == 0x202F || n == 0x205F || n == 0x3000

/-- Drops the characters at the end that pass a test. -/
def dropEndWhile (p : Char → Bool) (cs : List Char) : List Char := (cs.reverse.dropWhile p).reverse

/-- A text without its leading blanks. -/
def trimStart (s : String) : String := String.ofList (s.toList.dropWhile isBlank)

/-- A text without its trailing blanks. -/
def trimEnd (s : String) : String := String.ofList (dropEndWhile isBlank s.toList)

/-- A text without the blanks at both ends. -/
def trim (s : String) : String := trimEnd (trimStart s)

end SdkLoom.Text
