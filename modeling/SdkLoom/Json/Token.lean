import SdkLoom.Json.Number

/-!
# JSON tokens

The tokens of a JSON text, found by a machine that reads one character at a time.
-/

namespace SdkLoom.Json

/-- A token: a bracket or separator, a string (none if it holds half of a surrogate pair), or another leaf. -/
inductive Token where
  | openArr
  | closeArr
  | openObj
  | closeObj
  | colon
  | comma
  | str (text : Option String)
  | leaf (tree : Document)

namespace Token

/-- A string that is being read: its characters, last first, a leading half of a surrogate pair, and whether some half
stood alone. -/
structure Partial where
  chars : List Char
  high : Option Nat
  broken : Bool

/-- What the machine is inside of. -/
inductive Mode where
  | between
  | text (p : Partial)
  | escape (p : Partial)
  | hex (p : Partial) (count : Nat) (value : Nat)
  | number (chars : List Char)
  | word (chars : List Char)

/-- The machine: what it is inside of, and the tokens so far, last first. -/
structure State where
  mode : Mode
  tokens : List Token

/-- The value of a hexadecimal digit. -/
def hexDigit? (c : Char) : Option Nat :=
  if '0' ≤ c ∧ c ≤ '9' then some (c.toNat - '0'.toNat)
  else if 'a' ≤ c ∧ c ≤ 'f' then some (c.toNat - 'a'.toNat + 10)
  else if 'A' ≤ c ∧ c ≤ 'F' then some (c.toNat - 'A'.toNat + 10)
  else none

/-- Adds a character to a string; a leading half before it stood alone. -/
def Partial.push (p : Partial) (c : Char) : Partial :=
  { chars := c :: p.chars, high := none, broken := p.broken || p.high.isSome }

/-- Adds a code unit of an escape: halves are joined, and a half without its other half breaks the string. -/
def Partial.pushUnit (p : Partial) (unit : Nat) : Partial :=
  if 0xD800 ≤ unit ∧ unit ≤ 0xDBFF then { p with high := some unit, broken := p.broken || p.high.isSome }
  else if 0xDC00 ≤ unit ∧ unit ≤ 0xDFFF then
    match p.high with
    | some h =>
      { chars := Char.ofNat (0x10000 + (h - 0xD800) * 0x400 + (unit - 0xDC00)) :: p.chars, high := none, broken := p.broken }
    | none => { p with broken := true }
  else p.push (Char.ofNat unit)

/-- The string that was read, unless some half of a surrogate pair stood alone. -/
def Partial.finish (p : Partial) : Option String :=
  if p.broken || p.high.isSome then none else some (String.ofList p.chars.reverse)

/-- The character that a one-letter escape stands for. -/
def escaped? : Char → Option Char
  | '"' => some '"'
  | '\\' => some '\\'
  | '/' => some '/'
  | 'b' => some '\x08'
  | 'f' => some '\x0c'
  | 'n' => some '\n'
  | 'r' => some '\r'
  | 't' => some '\t'
  | _ => none

/-- The token of a number literal. -/
def ofNumber? (cs : List Char) : Option Token :=
  (Literal.read cs).map fun l =>
    match l.number with
    | .ok n => .leaf (.num n)
    | .error f => .leaf (.fault f)

/-- The token of a word. -/
def ofWord? : String → Option Token
  | "null" => some (.leaf .null)
  | "true" => some (.leaf (.bool true))
  | "false" => some (.leaf (.bool false))
  | _ => none

/-- Ends a number or a word that a character or the end of the text follows. -/
def State.settle (st : State) : Option State :=
  match st.mode with
  | .number cs => (ofNumber? cs.reverse).map fun t => ⟨.between, t :: st.tokens⟩
  | .word cs => (ofWord? (String.ofList cs.reverse)).map fun t => ⟨.between, t :: st.tokens⟩
  | _ => some st

/-- Whether a character can stand in a number literal. -/
def isNumberChar (c : Char) : Bool := c.isDigit || c == '-' || c == '+' || c == '.' || c == 'e' || c == 'E'

/-- Reads a character between tokens. -/
def start (tokens : List Token) (c : Char) : Option State :=
  match c with
  | ' ' | '\n' | '\t' | '\r' => some ⟨.between, tokens⟩
  | '[' => some ⟨.between, .openArr :: tokens⟩
  | ']' => some ⟨.between, .closeArr :: tokens⟩
  | '\x7b' => some ⟨.between, .openObj :: tokens⟩
  | '\x7d' => some ⟨.between, .closeObj :: tokens⟩
  | ':' => some ⟨.between, .colon :: tokens⟩
  | ',' => some ⟨.between, .comma :: tokens⟩
  | '"' => some ⟨.text ⟨[], none, false⟩, tokens⟩
  | c =>
    if c.isDigit || c == '-' then some ⟨.number [c], tokens⟩
    else if c.isLower then some ⟨.word [c], tokens⟩
    else none

/-- Reads one character. -/
def step (st : State) (c : Char) : Option State :=
  match st.mode with
  | .between => start st.tokens c
  | .text p =>
    if c = '"' then some ⟨.between, .str p.finish :: st.tokens⟩
    else if c = '\\' then some ⟨.escape p, st.tokens⟩
    else if c.toNat < 0x20 then none
    else some ⟨.text (p.push c), st.tokens⟩
  | .escape p =>
    if c = 'u' then some ⟨.hex p 0 0, st.tokens⟩
    else (escaped? c).map fun d => ⟨.text (p.push d), st.tokens⟩
  | .hex p count value =>
    (hexDigit? c).map fun d =>
      if count = 3 then ⟨.text (p.pushUnit (value * 16 + d)), st.tokens⟩
      else ⟨.hex p (count + 1) (value * 16 + d), st.tokens⟩
  | .number cs =>
    if isNumberChar c then some ⟨.number (c :: cs), st.tokens⟩
    else st.settle.bind fun st => start st.tokens c
  | .word cs =>
    if c.isLower then some ⟨.word (c :: cs), st.tokens⟩
    else st.settle.bind fun st => start st.tokens c

/-- The tokens of a text. -/
def scan (cs : List Char) : Option (List Token) := do
  let st ← cs.foldlM step ⟨.between, []⟩
  let st ← st.settle
  match st.mode with
  | .between => some st.tokens.reverse
  | _ => none

end Token

end SdkLoom.Json
