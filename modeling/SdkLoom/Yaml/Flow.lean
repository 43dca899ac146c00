import SdkLoom.Yaml.Cursor

/-!
# Scalars that flow

Plain words and quoted texts. They may run over several lines, whose breaks fold as in `Gap`.
-/

namespace SdkLoom.Yaml

/-! ## Plain scalars -/

/-- The characters that shape flow collections. -/
def isFlowIndicator (c : Char) : Bool := c == ',' || c == '[' || c == ']' || c == '\x7b' || c == '\x7d'

/-- The word of a plain scalar that a text starts with. A colon before a separator ends it, and inside a flow collection a
flow indicator does; there a colon right before a flow indicator is refused. -/
def plainWord? (flow : Bool) : List Char → Option (List Char)
  | [] => some []
  | c :: rest =>
    if isSeparator c then some []
    else if flow && c == ':' && rest.head?.any (fun d => isFlowIndicator d || d == '?') then none
    else if (c == ':' && startsWithSeparator rest) || (flow && isFlowIndicator c) then some []
    else (plainWord? flow rest).map (c :: ·)

/-- A scalar's text, whether a line ended after it, and the place where reading goes on. -/
structure Flowed where
  text : List Char
  lines : Bool
  after : Cursor

/-- The words of a plain scalar from here on. `gap` is what stands before the next word; it counts only if there is one. Out
of flow collections a line left of `indent` ends the scalar. -/
def plainFrom? (flow : Bool) (indent : Nat) : Nat → Gap → Option Flowed
  | 0, _ => none
  | fuel + 1, gap =>
    let c := gap.after
    if c.atDocumentMarker || c.sees '#' then some ⟨[], gap.lines, c⟩
    else do
      let word ← plainWord? flow c.rest
      if word.isEmpty then some ⟨[], gap.lines, c⟩
      else
        let text := gap.text ++ word
        let c := c.advance word.length
        if c.atEnd || !c.separatorAt 0 then some ⟨text, false, c⟩
        else do
          let gap ← c.gap indent
          if !flow && gap.after.column < indent then some ⟨text, gap.lines, gap.after⟩
          else (plainFrom? flow indent fuel gap).map fun f => ⟨text ++ f.text, f.lines, f.after⟩

/-- The plain scalar that starts here. -/
def Cursor.plain? (flow : Bool) (indent : Nat) (c : Cursor) : Option Flowed :=
  plainFrom? flow indent (c.rest.length + 1) ⟨[], false, c⟩

/-! ## Quoted scalars -/

/-- The value of a hexadecimal digit. -/
def hexDigit? (c : Char) : Option Nat :=
  if c.isDigit then some (c.toNat - '0'.toNat)
  else if 'a' ≤ c && c ≤ 'f' then some (c.toNat - 'a'.toNat + 10)
  else if 'A' ≤ c && c ≤ 'F' then some (c.toNat - 'A'.toNat + 10)
  else none

/-- The character whose code is given by hexadecimal digits. -/
def codePoint? (digits : List Char) (length : Nat) : Option Char := do
  let ds ← digits.mapM hexDigit?
  if ds.length ≠ length then none
  else
    let n := ds.foldl (fun n d => n * 16 + d) 0
    if h : n.isValidChar then some (Char.ofNatAux n h) else none

/-- The character that an escape stands for, given what follows the backslash, and the length of what follows. -/
def escape? : List Char → Option (Char × Nat)
  | '0' :: _ => some ('\x00', 1)
  | 'a' :: _ => some ('\x07', 1)
  | 'b' :: _ => some ('\x08', 1)
  | 't' :: _ => some ('\t', 1)
  | '\t' :: _ => some ('\t', 1)
  | 'n' :: _ => some ('\n', 1)
  | 'v' :: _ => some ('\x0b', 1)
  | 'f' :: _ => some ('\x0c', 1)
  | 'r' :: _ => some ('\r', 1)
  | 'e' :: _ => some ('\x1b', 1)
  | ' ' :: _ => some (' ', 1)
  | '"' :: _ => some ('"', 1)
  | '/' :: _ => some ('/', 1)
  | '\\' :: _ => some ('\\', 1)
  | 'N' :: _ => some ('\u0085', 1)
  | '_' :: _ => some ('\u00a0', 1)
  | 'L' :: _ => some ('\u2028', 1)
  | 'P' :: _ => some ('\u2029', 1)
  | 'x' :: rest => (codePoint? (rest.take 2) 2).map (·, 3)
  | 'u' :: rest => (codePoint? (rest.take 4) 4).map (·, 5)
  | 'U' :: rest => (codePoint? (rest.take 8) 8).map (·, 9)
  | _ => none

/-- The two ways to quote. -/
inductive Quote where
  | single
  | double
  deriving DecidableEq

/-- The character of a quote. -/
def Quote.char : Quote → Char
  | .single => '\x27'
  | .double => '"'

/-- A word inside quotes, whether an escaped line break ended it, and the place after it. -/
def quotedWord? (q : Quote) : Nat → Cursor → Option (List Char × Bool × Cursor)
  | 0, _ => none
  | fuel + 1, c =>
    let more (ch : Char) (n : Nat) := (quotedWord? q fuel (c.advance n)).map fun (cs, b, c) => (ch :: cs, b, c)
    match c.rest with
    | [] => some ([], false, c)
    | ch :: rest =>
      if isSeparator ch then some ([], false, c)
      else if q = .single ∧ ch = q.char ∧ rest.head? = some q.char then more ch 2
      else if ch = q.char then some ([], false, c)
      else if q = .double ∧ ch = '\\' then
        if rest.head?.any isBreak then some ([], true, (c.advance 1).nextLine)
        else match escape? rest with
          | some (e, n) => more e (n + 1)
          | none => none
      else more ch 1

/-- The rest of a quoted scalar up to its closing quote. -/
def quotedFrom? (q : Quote) : Nat → Cursor → Option (List Char × Cursor)
  | 0, _ => none
  | fuel + 1, c =>
    if c.atDocumentMarker || c.atEnd then none
    else do
      let (word, escaped, c) ← quotedWord? q (c.rest.length + 1) c
      if !escaped && c.sees q.char then some (word, c.advance 1)
      else do
        let (between, after) ← if escaped then blankLines 0 c.rest.length c []
          else (c.gap 0).map fun g => (g.text, g.after)
        (quotedFrom? q fuel after).map fun (cs, c) => (word ++ between ++ cs, c)

/-- The quoted scalar whose opening quote stands here. -/
def Cursor.quoted? (q : Quote) (c : Cursor) : Option (List Char × Cursor) :=
  quotedFrom? q (c.rest.length + 1) (c.advance 1)

end SdkLoom.Yaml
