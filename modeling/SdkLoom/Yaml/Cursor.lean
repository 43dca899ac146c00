/-!
# Places in a YAML text

A `Cursor` is the rest of a text with the line and column where it starts. Line breaks are those of YAML, and a gap between
two words reads as `Gap` says: blanks on one line stand for themselves, a line break for a space, and of several line breaks
the first is dropped.
-/

namespace SdkLoom.Yaml

/-- A space or a tab. -/
def isGapChar (c : Char) : Bool := c == ' ' || c == '\t'

/-- A character that ends a line. -/
def isBreak (c : Char) : Bool :=
  c == '\n' || c == '\r' || c == '\u0085' || c == '\u2028' || c == '\u2029'

/-- A character that no word holds. -/
def isSeparator (c : Char) : Bool := isGapChar c || isBreak c

/-- Whether a text is empty or starts with a separator. -/
def startsWithSeparator : List Char → Bool
  | [] => true
  | c :: _ => isSeparator c

/-- The characters that a YAML text may hold. -/
def isAllowed (c : Char) : Bool :=
  let n := c.toNat
  n == 0x09 || n == 0x0A || n == 0x0D || (0x20 ≤ n && n ≤ 0x7E) || n == 0x85 || (0xA0 ≤ n && n ≤ 0xFFFD) || 0x10000 ≤ n

/-- The rest of a text and where it starts. -/
structure Cursor where
  rest : List Char
  index : Nat
  line : Nat
  column : Nat

namespace Cursor

/-- The start of a text, after the byte order mark that it may have. -/
def start (s : String) : Cursor :=
  match s.toList with
  | '\ufeff' :: rest => ⟨rest, 0, 0, 0⟩
  | cs => ⟨cs, 0, 0, 0⟩

/-- Whether the text has ended. -/
def atEnd (c : Cursor) : Bool := c.rest.isEmpty

/-- Whether the next character is the given one. -/
def sees (c : Cursor) (ch : Char) : Bool := c.rest.head? == some ch

/-- Whether a line ends here. -/
def atBreak (c : Cursor) : Bool := c.rest.head?.any isBreak

/-- Whether a space or tab stands here. -/
def atGapChar (c : Cursor) : Bool := c.rest.head?.any isGapChar

/-- Whether the end of the text or a separator stands `n` characters on. -/
def separatorAt (c : Cursor) (n : Nat) : Bool := startsWithSeparator (c.rest.drop n)

/-- The place `n` characters on in the same line. -/
def advance (c : Cursor) (n : Nat) : Cursor := ⟨c.rest.drop n, c.index + n, c.line, c.column + n⟩

/-- The place after the characters that pass a test, none of which ends a line. -/
def skipWhile (c : Cursor) (p : Char → Bool) : Cursor := c.advance (c.rest.takeWhile p).length

/-- What the line break here reads as: a line feed, or itself where it separates lines or paragraphs. -/
def lineBreak (c : Cursor) : List Char :=
  match c.rest with
  | ch :: _ => if ch == '\u2028' || ch == '\u2029' then [ch] else if isBreak ch then ['\n'] else []
  | [] => []

/-- The place after the line break here. -/
def nextLine (c : Cursor) : Cursor :=
  match c.rest with
  | '\r' :: '\n' :: rest => ⟨rest, c.index + 2, c.line + 1, 0⟩
  | ch :: rest => if isBreak ch then ⟨rest, c.index + 1, c.line + 1, 0⟩ else c
  | [] => c

/-- Whether a line starts here with three characters that stand alone. -/
def atMarker (c : Cursor) (ch : Char) : Bool :=
  c.column == 0 && c.rest.take 3 == [ch, ch, ch] && c.separatorAt 3

/-- Whether a document starts or ends here. -/
def atDocumentMarker (c : Cursor) : Bool := c.atMarker '-' || c.atMarker '.'

end Cursor

/-! ## Gaps -/

/-- What line breaks read as. -/
def foldBreaks (first more : List Char) : List Char :=
  if first == ['\n'] then if more.isEmpty then [' '] else more
  else first ++ more

/-- The separators from here on, of which only the line breaks count; a tab left of `indent` is refused. -/
def blankLines (indent : Nat) : Nat → Cursor → List Char → Option (List Char × Cursor)
  | 0, c, breaks => some (breaks, c)
  | fuel + 1, c, breaks =>
    if c.sees '\t' && c.column < indent then none
    else if c.atGapChar then blankLines indent fuel (c.advance 1) breaks
    else if c.atBreak then blankLines indent fuel c.nextLine (breaks ++ c.lineBreak)
    else some (breaks, c)

/-- The separators between two words: what they read as, whether a line ended, and the place after them. -/
structure Gap where
  text : List Char
  lines : Bool
  after : Cursor

/-- The gap that starts here. -/
def Cursor.gap (indent : Nat) (c : Cursor) : Option Gap :=
  let blanks := c.rest.takeWhile isGapChar
  let c := c.advance blanks.length
  if c.atBreak then
    (blankLines indent c.rest.length c.nextLine []).map fun (more, after) => ⟨foldBreaks c.lineBreak more, true, after⟩
  else some ⟨blanks, false, c⟩

end SdkLoom.Yaml
