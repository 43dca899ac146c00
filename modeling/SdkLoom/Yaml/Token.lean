import SdkLoom.Text.Utf8
import SdkLoom.Yaml.Block
import SdkLoom.Yaml.Flow

/-!
# Tokens of a YAML text

Indentation shows as tokens that open and close block collections, so the grammar of the tokens needs no columns. A key shows
only by the colon after it. The scan therefore remembers where a key may have begun (`Candidate`), appends tokens in the order
of the text, and notes at which of them keys turned out to start (`Opening`); `Token.merge` puts the two together.
-/

namespace SdkLoom.Yaml

/-- A token. -/
inductive Token where
  | version
  | tagHandle (handle lead : String)
  | documentStart
  | documentEnd
  | blockSequence
  | blockMapping
  | blockEnd
  | flowSequence
  | flowSequenceEnd
  | flowMapping
  | flowMappingEnd
  | blockEntry
  | flowEntry
  | key
  | value
  | alias (name : String)
  | anchor (name : String)
  | tag (handle suffix : String)
  | scalar (plain : Bool) (text : String)
  | streamEnd
  deriving DecidableEq

/-- A place where a key may have begun: the number of tokens before it, its place in the text, and whether it has to turn out
to be a key. -/
structure Candidate where
  position : Nat
  index : Nat
  line : Nat
  column : Nat
  required : Bool

/-- A key that starts at the token with a given number, and whether it is the first of a block mapping. -/
structure Opening where
  position : Nat
  mapping : Bool

/-- The state of a scan: the tokens so far, last first; the indentation of the open block collections, innermost first; and
for every open flow collection, innermost first, the place where a key may have begun. -/
structure Scan where
  cursor : Cursor
  tokens : List Token
  openings : List Opening
  indents : List Nat
  flows : List (Option Candidate)
  outer : Option Candidate
  keyAllowed : Bool

namespace Scan

/-- The start of a text. -/
def start (s : String) : Scan := ⟨.start s, [], [], [], [], none, true⟩

/-- Whether a flow collection is open. -/
def inFlow (s : Scan) : Bool := !s.flows.isEmpty

/-- The indentation of the innermost block collection, below zero if there is none. -/
def indent (s : Scan) : Int :=
  match s.indents with
  | n :: _ => n
  | [] => -1

/-- Appends a token. -/
def push (s : Scan) (t : Token) : Scan := { s with tokens := t :: s.tokens }

/-- Appends a token of `n` characters. -/
def take (s : Scan) (n : Nat) (t : Token) : Scan := { s.push t with cursor := s.cursor.advance n }

/-- Says whether a key may begin next. -/
def allowKey (s : Scan) (b : Bool) : Scan := { s with keyAllowed := b }

/-! ## Keys that may have begun -/

/-- Where a key of the innermost collection may have begun. -/
def candidate (s : Scan) : Option Candidate :=
  match s.flows with
  | c :: _ => c
  | [] => s.outer

/-- Replaces the place where a key of the innermost collection may have begun. -/
def withCandidate (s : Scan) (c : Option Candidate) : Scan :=
  match s.flows with
  | _ :: rest => { s with flows := c :: rest }
  | [] => { s with outer := c }

/-- Gives up a possible key, which must not be one that is required. -/
def dropCandidate? (s : Scan) : Option Scan :=
  if s.candidate.any Candidate.required then none else some (s.withCandidate none)

/-- Remembers that a key may begin here. -/
def saveCandidate? (s : Scan) : Option Scan :=
  if s.keyAllowed then
    let c := s.cursor
    let required := !s.inFlow && s.indent == c.column
    s.dropCandidate?.map (·.withCandidate (some ⟨s.tokens.length, c.index, c.line, c.column, required⟩))
  else some s

/-- Whether a key that may have begun can still be one: it stays on its line and within 1024 characters. -/
def isLive (here : Cursor) (c : Candidate) : Bool := !(c.line < here.line || c.index + 1024 < here.index)

/-- Gives up the possible keys that have become too long. -/
def dropStale? (s : Scan) : Option Scan :=
  let stale (c : Option Candidate) := c.any fun c => !isLive s.cursor c && c.required
  let keep (c : Option Candidate) := c.filter (isLive s.cursor)
  if (s.outer :: s.flows).any stale then none
  else some { s with flows := s.flows.map keep, outer := keep s.outer }

/-! ## Indentation -/

/-- Closes the block collections that are indented deeper than a column. -/
def unindent (s : Scan) (column : Int) : Scan :=
  if s.inFlow then s
  else
    let closed := s.indents.takeWhile fun (n : Nat) => decide (column < n)
    { s with
      tokens := closed.map (fun _ => .blockEnd) ++ s.tokens
      indents := s.indents.drop closed.length }

/-- Whether a collection at a column would be a new one. -/
def opens (s : Scan) (column : Nat) : Bool := !s.inFlow && s.indent < column

/-- Opens a block collection at a column, unless one is open there. -/
def indentTo (s : Scan) (column : Nat) (t : Token) : Scan :=
  if s.opens column then { s.push t with indents := column :: s.indents } else s

/-! ## Steps -/

/-- Skips a byte order mark at the start of a line. -/
def skipMark (c : Cursor) : Cursor := if c.column == 0 && c.sees '\ufeff' then c.advance 1 else c

/-- Skips blanks, comments and line breaks. A tab cannot stand where a block key could; a line break allows one. -/
def skipBlank (inFlow : Bool) : Nat → Cursor → Bool → Cursor × Bool
  | 0, c, keyAllowed => (c, keyAllowed)
  | fuel + 1, c, keyAllowed =>
    let c := (skipMark c).skipWhile fun ch => ch == ' ' || ((inFlow || !keyAllowed) && ch == '\t')
    let c := if c.sees '#' then c.skipWhile (!isBreak ·) else c
    if c.atBreak then skipBlank inFlow fuel c.nextLine (keyAllowed || !inFlow)
    else (c, keyAllowed)

/-- The characters of anchor names. -/
def isNameChar (c : Char) : Bool := c.isAlphanum || c == '_' || c == '-'

/-- The name of an anchor or alias, with the place after it. -/
def name? (c : Cursor) : Option (String × Cursor) :=
  let name := c.rest.takeWhile isNameChar
  let after := c.advance name.length
  let closed := after.separatorAt 0
    || after.rest.head?.any fun ch => ['?', ':', ',', ']', '\x7d', '%', '@', '\x60'].contains ch
  if name.isEmpty || !closed then none else some (String.ofList name, after)

/-- The characters of tags; within angle brackets and in directives the flow indicators count too. -/
def isTagChar (verbatim : Bool) (c : Char) : Bool :=
  isNameChar c || [';', '/', '?', ':', '@', '&', '=', '+', '$', '.', '!', '~', '*', '\x27', '(', ')'].contains c
    || (verbatim && (c == ',' || c == '[' || c == ']'))

/-- The number of octets that follow the first one of a character, if it can be one. -/
def octetsAfter? (octet : Nat) : Option Nat :=
  if octet < 0x80 then some 0
  else if 0xC0 ≤ octet && octet < 0xE0 then some 1
  else if 0xE0 ≤ octet && octet < 0xF0 then some 2
  else if 0xF0 ≤ octet && octet < 0xF8 then some 3
  else none

/-- The octets of the tag characters from here on and what follows them. A percent sign and two hexadecimal digits give an
octet; `left` octets are missing to the character that has begun. -/
def tagOctets? (verbatim : Bool) : Nat → List Char → Option (List UInt8 × List Char)
  | left, '%' :: a :: b :: rest => do
    let octet := (← hexDigit? a) * 16 + (← hexDigit? b)
    let left ← if left = 0 then octetsAfter? octet
      else if 0x80 ≤ octet && octet < 0xC0 then some (left - 1) else none
    let (octets, rest) ← tagOctets? verbatim left rest
    some (UInt8.ofNat octet :: octets, rest)
  | left, c :: rest =>
    if left ≠ 0 || c == '%' then none
    else if isTagChar verbatim c then
      (tagOctets? verbatim 0 rest).map fun (octets, rest) => (String.utf8EncodeChar c ++ octets, rest)
    else some ([], c :: rest)
  | left, [] => if left = 0 then some ([], []) else none

/-- The tag text that starts here, with the place after it. -/
def tagText? (verbatim : Bool) (c : Cursor) : Option (String × Cursor) :=
  (tagOctets? verbatim 0 c.rest).map fun (octets, rest) =>
    (Text.ofBytesLossy octets, c.advance (c.rest.length - rest.length))

/-- A tag: its handle and suffix, with the place after it. -/
def tag? (inFlow : Bool) (c : Cursor) : Option (Token × Cursor) := do
  let (token, c) ←
    if (c.advance 1).sees '<' then do
      let (uri, after) ← tagText? true (c.advance 2)
      if uri.isEmpty || !after.sees '>' then none else some (.tag "" uri, after.advance 1)
    else
      let name := (c.advance 1).rest.takeWhile isNameChar
      let handleEnd := c.advance (1 + name.length)
      if handleEnd.sees '!' then do
        let (suffix, after) ← tagText? false (handleEnd.advance 1)
        if suffix.isEmpty then none else some (.tag (String.ofList ('!' :: name ++ ['!'])) suffix, after)
      else do
        let (suffix, after) ← tagText? false (c.advance 1)
        some (if suffix.isEmpty then .tag "" "!" else .tag "!" suffix, after)
  if c.separatorAt 0 || (inFlow && c.sees ',') then some (token, c) else none

/-- The number that starts here, of at most nine digits, with the place after it. -/
def number? (c : Cursor) : Option (Nat × Cursor) :=
  let digits := c.rest.takeWhile Char.isDigit
  if digits.isEmpty || 9 < digits.length then none
  else some (digits.foldl (fun n d => n * 10 + (d.toNat - '0'.toNat)) 0, c.advance digits.length)

/-- The version of a directive, which has to be 1.1 or 1.2. -/
def version? (c : Cursor) : Option (Token × Cursor) := do
  let (major, c) ← number? c
  if !c.sees '.' then none
  else
    let (minor, c) ← number? (c.advance 1)
    if major = 1 && (minor = 1 || minor = 2) then some (.version, c) else none

/-- The handle of a directive and the text it stands for. -/
def tagHandle? (c : Cursor) : Option (Token × Cursor) := do
  if !c.sees '!' then none
  else
    let name := (c.advance 1).rest.takeWhile isNameChar
    let after := c.advance (1 + name.length)
    let (handle, c) ← if after.sees '!' then some ('!' :: name ++ ['!'], after.advance 1)
      else if name.isEmpty then some (['!'], after) else none
    if !c.atGapChar then none
    else
      let (lead, c) ← tagText? true (c.skipWhile isGapChar)
      if lead.isEmpty || !c.separatorAt 0 then none else some (.tagHandle (String.ofList handle) lead, c)

/-- A directive line. -/
def directive? (c : Cursor) : Option (Token × Cursor) := do
  let c := c.advance 1
  let name := c.rest.takeWhile isNameChar
  let c := c.advance name.length
  let value := c.skipWhile isGapChar
  let (token, c) ← if !c.separatorAt 0 then none
    else if name == ['Y', 'A', 'M', 'L'] then version? value
    else if name == ['T', 'A', 'G'] then tagHandle? value
    else none
  let c := c.skipWhile isGapChar
  let c := if c.sees '#' then c.skipWhile (!isBreak ·) else c
  if c.atEnd || c.atBreak then some (token, c.nextLine) else none

/-- The start of an alias, an anchor or a tag. -/
def property? (s : Scan) (read : Cursor → Option (Token × Cursor)) : Option Scan := do
  let s ← s.saveCandidate?
  let (t, c) ← read s.cursor
  some { (s.allowKey false).push t with cursor := c }

/-- A document marker or directive closes everything. -/
def boundary? (s : Scan) : Option Scan := (s.unindent (-1)).dropCandidate?.map (·.allowKey false)

/-- Opens a flow collection. -/
def openFlow? (s : Scan) (t : Token) : Option Scan :=
  s.saveCandidate?.map fun s => { (s.allowKey true).take 1 t with flows := none :: s.flows }

/-- Closes a flow collection. -/
def closeFlow? (s : Scan) (t : Token) : Option Scan :=
  s.dropCandidate?.map fun s => { (s.allowKey false).take 1 t with flows := s.flows.drop 1 }

/-- The mark of an entry or of an explicit key; in block collections it may stand only where a key may. -/
def mark? (s : Scan) (collection t : Token) (keyAllowed : Bool) : Option Scan :=
  if !s.inFlow && !s.keyAllowed then none
  else (s.indentTo s.cursor.column collection).dropCandidate?.map fun s => (s.allowKey keyAllowed).take 1 t

/-- The colon before a value, which makes a key of what stands before it. -/
def value? (s : Scan) : Option Scan :=
  match s.candidate with
  | some c =>
    let first := s.opens c.column
    let s := (s.withCandidate none).allowKey false
    let s := { s with
      openings := ⟨c.position, first⟩ :: s.openings
      indents := if first then c.column :: s.indents else s.indents }
    some (s.take 1 .value)
  | none =>
    if s.inFlow then some ((s.allowKey false).take 1 .value)
    else if s.keyAllowed then some (((s.indentTo s.cursor.column .blockMapping).allowKey true).take 1 .value)
    else none

/-- A scalar that flows. -/
def flowed? (s : Scan) (plain : Bool) (read : Cursor → Option Flowed) : Option Scan := do
  let s ← s.saveCandidate?
  let f ← read s.cursor
  some { (s.allowKey f.lines).push (.scalar plain (String.ofList f.text)) with cursor := f.after }

/-- A block scalar. -/
def block? (s : Scan) (folded : Bool) : Option Scan := do
  let s ← s.dropCandidate?
  let (text, c) ← s.cursor.block? folded s.indent
  some { (s.allowKey true).push (.scalar false (String.ofList text)) with cursor := c }

/-- Whether a plain scalar starts here. -/
def startsPlain (inFlow : Bool) (c : Cursor) (ch : Char) : Bool :=
  let indicators := ['-', '?', ':', ',', '[', ']', '\x7b', '\x7d', '#', '&', '*', '!', '|', '>', '\x27', '"', '%', '@', '\x60']
  (!isSeparator ch && !indicators.contains ch) || (ch == '-' && !(c.advance 1).atGapChar)
    || (!inFlow && (ch == '?' || ch == ':') && !c.separatorAt 1)

/-- Reads the token that starts with a character. -/
def token? (s : Scan) (ch : Char) : Option Scan :=
  let c := s.cursor
  if c.column == 0 && ch == '%' then do
    let s ← s.boundary?
    let (t, c) ← directive? s.cursor
    some { s.push t with cursor := c }
  else if c.atMarker '-' then s.boundary?.map (·.take 3 .documentStart)
  else if c.atMarker '.' then s.boundary?.map (·.take 3 .documentEnd)
  else if ch == '[' then s.openFlow? .flowSequence
  else if ch == '\x7b' then s.openFlow? .flowMapping
  else if ch == ']' then s.closeFlow? .flowSequenceEnd
  else if ch == '\x7d' then s.closeFlow? .flowMappingEnd
  else if ch == ',' then s.dropCandidate?.map fun s => (s.allowKey true).take 1 .flowEntry
  else if ch == '-' && c.separatorAt 1 then s.mark? .blockSequence .blockEntry true
  else if ch == '?' && (s.inFlow || c.separatorAt 1) then s.mark? .blockMapping .key (!s.inFlow)
  else if ch == ':' && (s.inFlow || c.separatorAt 1) then s.value?
  else if ch == '*' then s.property? fun c => (name? (c.advance 1)).map fun (n, c) => (.alias n, c)
  else if ch == '&' then s.property? fun c => (name? (c.advance 1)).map fun (n, c) => (.anchor n, c)
  else if ch == '!' then s.property? (tag? s.inFlow)
  else if ch == '|' && !s.inFlow then s.block? false
  else if ch == '>' && !s.inFlow then s.block? true
  else if ch == '\x27' then s.flowed? false fun c => (c.quoted? .single).map fun (text, c) => ⟨text, false, c⟩
  else if ch == '"' then s.flowed? false fun c => (c.quoted? .double).map fun (text, c) => ⟨text, false, c⟩
  else if startsPlain s.inFlow c ch then s.flowed? true (Cursor.plain? s.inFlow (s.indent + 1).toNat)
  else none

/-- The whole of a text, token by token. -/
def run? : Nat → Scan → Option Scan
  | 0, _ => none
  | fuel + 1, s => do
    let (c, keyAllowed) := skipBlank s.inFlow (s.cursor.rest.length + 1) s.cursor s.keyAllowed
    let s ← { s with cursor := c, keyAllowed := keyAllowed }.dropStale?
    let s := s.unindent c.column
    match c.rest with
    | [] => (s.unindent (-1)).dropCandidate?.map (·.push .streamEnd)
    | ch :: _ => do
      let s ← s.token? ch
      run? fuel s

end Scan

namespace Token

/-- The tokens that an opening puts before the token it stands at. -/
def ofOpening (o : Opening) : List Token := if o.mapping then [.blockMapping, .key] else [.key]

/-- Tokens in the order of the text, the first of which has the number `n`, with those of the openings put before them. -/
def merge (openings : List Opening) : Nat → List Token → List Token
  | _, [] => []
  | n, t :: rest => (openings.filter (·.position == n)).flatMap ofOpening ++ t :: merge openings (n + 1) rest

/-- The tokens of a text. -/
def scan? (s : String) : Option (List Token) :=
  if s.toList.all isAllowed then
    (Scan.run? (s.length + 1) (.start s)).map fun scan => merge scan.openings 0 scan.tokens.reverse
  else none

end Token

end SdkLoom.Yaml
